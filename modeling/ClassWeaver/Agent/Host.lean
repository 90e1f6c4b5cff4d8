import ClassWeaver.Agent.LoadedClass
import ClassWeaver.Options
import ClassWeaver.Transformer.Chain

/-!
An agent in a running machine: how it is loaded, and what it does at each event.

At most one agent is registered in a host, and at most one starts. Once it has started it stays,
even if loading fails after that. Events reach the agent only if its callbacks are installed, the
event is enabled and an agent that handles it is registered. Handles of class loaders are released
at the end of the event after which the search path does not hold them any more. The log itself is
no part of a host, but calls that are made for its sake are.
-/

set_option autoImplicit false
set_option relaxedAutoImplicit false

namespace ClassWeaver.Agent

open Search Vm

/-- The kinds of agents that may be registered. -/
inductive Kind where
  /-- It changes classes. -/
  | instrumentation
  /-- It handles no event. -/
  | quiet
  deriving DecidableEq, Repr

/-- An agent that has started. -/
structure Running where
  chain : List (Transformer LoaderHandle)
  workspace : Workspace LoaderHandle

structure Host where
  files : Files
  machine : Machine
  registered : Option Kind
  agent : Option Running
  /-- How much is logged, which is chosen when an agent is to be started for the first time. -/
  logLevel : Option LogLevel

/-- Why an agent could not be loaded. -/
inductive LoadError where
  /-- An agent is registered. -/
  | registered
  | options (error : OptionError)
  /-- The machine did not hand out the environment of its tool interface. -/
  | disconnected (status : Int)
  | capabilities (reason : String)
  | transformers (error : OptionError)
  /-- An agent has started. -/
  | started
  | events (reason : String)
  deriving DecidableEq, Repr

/-- The handles of class loaders that a workspace holds. -/
def Running.handles (agent : Running) : List LoaderHandle :=
  let entries := agent.workspace.registry.entries ++
    agent.workspace.pool.elim [] (·.path)
  entries.filterMap fun
    | .loader handle => some handle
    | _ => none

namespace Host

variable {α : Type}

def start (files : Files) (script : Script) : Host :=
  ⟨files, .start script, none, none, none⟩

def onMachine (work : StateM Machine α) : StateM Host α := fun host ↦
  let (answer, machine) := work.run host.machine
  (answer, { host with machine })

/-- Releases the handles that were held before the event, or made in it, and are not held now.
Handles made in it have numbers from `first` on. A thread that is not attached releases none. -/
def releaseHandles (first : Nat) (before now : List LoaderHandle) : StateM Machine Unit := do
  if ← Native.isAttached then
    Machine.keepWeaks fun handle ↦
      now.contains handle || (handle.id < first && !before.contains handle)

/-- What an agent that has started does at an event; without one, the answer is `absent`. -/
def withAgent (absent : α) (event : Running → StateM Machine (α × Running)) : StateM Host α :=
  fun host ↦
    match host.agent with
    | none => (absent, host)
    | some agent =>
      let ((answer, after), machine) := (event agent).run host.machine
      let release := releaseHandles host.machine.nextRef agent.handles after.handles
      let ((), machine) := release.run machine
      (answer, { host with machine, agent := some after })

/-- Work in the workspace of an agent. -/
def inWorkspace (agent : Running) (work : Work Machine LoaderHandle α) :
    StateM Machine (α × Running) := do
  let (answer, workspace) ← work.run agent.workspace
  return (answer, { agent with workspace })

/-! ### Loading -/

abbrev Loading (α : Type) := ExceptT LoadError (StateM Host) α

/-- Asks the machine something; a code that it answers is told in words. -/
def ask (failure : String → LoadError) (query : Tool.Query α) : Loading α := do
  match ← (onMachine query.run : StateM Host _) with
  | .ok answer => return answer
  | .error code => throw (failure (← (onMachine (Tool.describeError code) : StateM Host _)))

/-- Asks for the capabilities that the agent wants, as far as the machine offers them. -/
def requestCapabilities : Tool.Query Unit := do
  let potential ← Tool.getPotentialCapabilities
  Tool.addCapabilities (Capabilities.wanted.inter potential)

/-- The agent that options ask for. -/
def makeAgent (options : Options) : Loading Running := do
  match options.transformers with
  | .error error => throw (.transformers error)
  | .ok chain =>
    let access := LoaderHandle.access (← get).files
    let work : Work Machine LoaderHandle Unit := options.searchPath.forM fun entry ↦ do
      let _ ← Workspace.addToPath access .back entry
    let agent : Running := ⟨chain, .ofSystem []⟩
    let ((), agent) ← (onMachine (inWorkspace agent work) : StateM Host _)
    return agent

/-- Starts an agent, unless one has started, and has the machine send it events. -/
def startAgent (options : Options) : Loading Unit := do
  match ← (onMachine Tool.connect.run : StateM Host _) with
  | .error status => throw (.disconnected status)
  | .ok _ =>
    ask .capabilities requestCapabilities
    let agent ← makeAgent options
    if (← get).agent.isSome then throw .started
    modify fun host ↦ { host with agent := some agent }
    ask .events Tool.setEventCallbacks
    ask .events (Tool.setEventNotificationMode true EventNumber.machineInit)
    ask .events (Tool.setEventNotificationMode true EventNumber.classFileLoadHook)

/-- Chooses how much is logged. The first choice stays. -/
def chooseLogLevel (level : LogLevel) : StateM Host Unit :=
  modify fun host ↦ { host with logLevel := host.logLevel <|> some level }

/-- Starts the agent that the text of options asks for. -/
def onLoad [LevelSpelling] (text : String) : Loading Unit := do
  match Options.parse text with
  | .error error =>
    (chooseLogLevel Options.default.logLevel : StateM Host Unit)
    throw (.options error)
  | .ok options =>
    (chooseLogLevel options.logLevel : StateM Host Unit)
    startAgent options

/-- The text of options as it stands in memory. Bytes that are not UTF-8 spell no options. -/
def optionText (bytes : Option Bytes) : String :=
  (bytes.bind fun bytes ↦ Text.Utf8.decode? (Text.Utf8.untilZero bytes)).getD ""

/-- Registers an agent, unless one is registered. -/
def register (kind : Kind) : StateM Host Bool :=
  modifyGet fun host ↦
    match host.registered with
    | some _ => (false, host)
    | none => (true, { host with registered := some kind })

/-- Registers an agent that changes classes, and starts it. -/
def load [LevelSpelling] (options : Option Bytes) : Loading Unit := do
  if ← (register .instrumentation : StateM Host Bool) then onLoad (optionText options)
  else throw .registered

/-- What the registered agent does at an event, if it handles events. -/
def handled (absent : α) (event : Running → StateM Machine (α × Running)) : StateM Host α := do
  if (← get).registered = some .instrumentation then withAgent absent event
  else return absent

def unload : StateM Host Unit :=
  handled () fun agent ↦ do
    let _ ← Tool.disposeEnvironment.run
    return ((), agent)

/-- Installs the callbacks and enables all events that they can handle, without any agent. -/
def installCallbacks : StateM Host Unit :=
  modify fun host ↦
    let all := [EventNumber.machineInit, EventNumber.machineDeath, EventNumber.classFileLoadHook]
    { host with machine.callbacks := true, machine.enabled := all ++ host.machine.enabled }

/-! ### Events -/

/-- The machine is ready for native calls: the system class loader joins the search path. The
answer is whether the event was sent. -/
def machineInit : StateM Host Bool := do
  let host ← get
  if host.machine.isEnabled EventNumber.machineInit then
    let access := LoaderHandle.access host.files
    handled () fun agent ↦ do
      match ← LoaderHandle.system.run with
      | .error _ => return ((), agent)
      | .ok handle =>
        let (_, agent) ← inWorkspace agent (Workspace.addToSystem access (.loader handle))
        return ((), agent)
    return true
  else return false

/-- The machine comes to its end, which no agent minds. The answer is whether the event was
sent. -/
def machineDeath : StateM Host Bool :=
  return (← get).machine.callbacks

/-- A class that is being loaded, redefined or retransformed. -/
structure ClassLoad where
  /-- As it stands in memory; some classes have no name. -/
  name : Option Bytes
  /-- The loader that defines the class, unless that is built into the machine. -/
  loader : Option String
  /-- The number of bytes in the class file, if there is one. -/
  length : Option Int

/-- The name of the class, if an agent can use it and there is a class file. -/
def ClassLoad.className? (load : ClassLoad) : Option String := do
  let name ← load.name
  let length ← load.length
  if length < 0 then none else Text.Utf8.decode? (Text.Utf8.untilZero name)

/-- Whether errors are logged. -/
def logsErrors (host : Host) : Bool :=
  host.logLevel.getD .off != .off

/-- Runs the chain of an agent on a class. The new bytes are copied into memory of the machine. If
there is none, the reason is logged, for which the machine has to tell its name. -/
def weave (access : Access Machine LoaderHandle) (logsErrors : Bool) (name : String)
    (loader : Option String) (agent : Running) : StateM Machine (Option Bytes × Running) := do
  let handle ←
    match loader with
    | some loader => Native.newWeakGlobalRef (.loader loader)
    | none => pure none
  let chain := Workspace.transformChain access handle name agent.chain
  let (bytes, agent) ← inWorkspace agent chain
  match bytes with
  | none => return (none, agent)
  | some bytes =>
    match ← (Tool.allocateCopy bytes).run with
    | .ok _ => return (some bytes, agent)
    | .error code =>
      if logsErrors then
        let _ ← Tool.describeError code
      return (none, agent)

/-- Offers a class to the agent. The answer is the bytes that take the place of its class file,
if any; the agent leaves them in memory, which the machine frees. -/
def offer (load : ClassLoad) : StateM Host (Option Bytes) := do
  let host ← get
  handled none fun agent ↦ do
    match load.className? with
    | none => return (none, agent)
    | some name =>
      if Transformer.wanted agent.chain name then
        let access := LoaderHandle.access host.files
        let answer ← weave access host.logsErrors name load.loader agent
        if answer.1.isSome then
          modify fun machine ↦ { machine with memory := machine.memory - 1 }
        return answer
      else return (none, agent)

/-- A class is being loaded. There is no answer if the event is not sent. -/
def classFileLoadHook (load : ClassLoad) : StateM Host (Option (Option Bytes)) := do
  if (← get).machine.isEnabled EventNumber.classFileLoadHook then return some (← offer load)
  else return none

/-! ### Requests -/

/-- Redefines classes with the bytes they are read from. -/
def retransform (classes : List (Option Object)) : StateM Host (Except Failure Unit) := do
  let access := LoaderHandle.access (← get).files
  withAgent (.error (.illegalState .notInstrumented)) fun agent ↦ do
    match ← LoadedClass.hold classes with
    | .error failure => return (.error failure, agent)
    | .ok classes =>
      let machine := LoadedClass.instrumentation
      let answer ← inWorkspace agent (Redefinition.retransform access (some machine) classes).run
      LoadedClass.release classes
      return answer

/-- The search path of the agent that has started. -/
def searchPath : StateM Host (Except Failure (List (Entry LoaderHandle))) := do
  let access := LoaderHandle.access (← get).files
  withAgent (.error (.illegalState .notInstrumented)) fun agent ↦
    inWorkspace agent (.ok <$> Workspace.searchPath access)

end Host

end ClassWeaver.Agent
