import ClassWeaver.Code.Fault

/-!
Why a class could not be found, read, changed or redefined.

A failure is told as one line: its own words, and behind a colon those of what caused it.
-/

set_option autoImplicit false
set_option relaxedAutoImplicit false

namespace ClassWeaver

/-- A request that does not fit the state it meets. -/
inductive StateError where
  | misnamed (name declared : String)
  | frozen (name : String)
  | noSuchMethod (index : Nat) (name : String)
  | cannotUpgrade
  | notHeldShared
  | notHeldExclusively
  | notInstrumented
  | alreadyInstrumented
  | redefinitionUnsupported
  /-- The current thread cannot reach objects of the running machine. -/
  | detached
  /-- The running machine did not make a reference to something. -/
  | noReference (function object : String)
  /-- A function of the running machine failed. -/
  | refused (function reason : String)
  /-- Anything else, in words. -/
  | other (text : String)
  deriving DecidableEq, Repr

def StateError.message : StateError → String
  | misnamed name declared => "Class file for '" ++ name ++ "' declares class '" ++ declared ++ "'"
  | frozen name => "Class '" ++ name ++ "' is frozen"
  | noSuchMethod index name => "Method #" ++ toString index ++ " doesn't exist in '" ++ name ++ "'"
  | cannotUpgrade => "The current thread holds the lock in shared mode and can't upgrade it"
  | notHeldShared => "The current thread doesn't hold the lock in shared mode"
  | notHeldExclusively => "The current thread doesn't hold the lock in exclusive mode"
  | notInstrumented => "Instrumentation environment wasn't initialized"
  | alreadyInstrumented => "Instrumentation environment was already initialized"
  | redefinitionUnsupported => "The runtime doesn't support redefinition of classes"
  | detached => "current thread isn't attached to the VM"
  | noReference function object => function ++ " failed for a " ++ object
  | refused function reason => function ++ " failed: " ++ reason
  | other text => text

inductive Failure where
  | classNotFound (name : String)
  | memberNotFound (owner member : String)
  /-- An entry of the search path could not be read. -/
  | unreadable (name : String)
  | uncompilable (name : String) (fault : Code.Fault)
  | malformed (name : String) (cause : ClassFile.Malformation)
  | illegalState (error : StateError)
  | redefinitionRejected (reason : String)
  | retransform (name : String) (cause : Failure)
  deriving DecidableEq, Repr

inductive FailureKind where
  | notFound
  | uncompilable
  | illegalState
  | malformed
  | redefinitionRejected
  deriving DecidableEq, Repr

namespace Failure

/-- A failed retransformation is of the kind of its cause. -/
def kind : Failure → FailureKind
  | classNotFound _ | memberNotFound _ _ | unreadable _ => .notFound
  | uncompilable _ _ => .uncompilable
  | malformed _ _ => .malformed
  | illegalState _ => .illegalState
  | redefinitionRejected _ => .redefinitionRejected
  | retransform _ cause => cause.kind

def message : Failure → String
  | classNotFound name => "Can't find class '" ++ name ++ "' in the class pool"
  | memberNotFound owner member => "Can't find " ++ member ++ " in class '" ++ owner ++ "'"
  | unreadable name => "Can't read class '" ++ name ++ "' from the search path"
  | uncompilable name fault => "Can't compile class '" ++ name ++ "': " ++ fault.message
  | malformed name cause => "Malformed class file for '" ++ name ++ "': " ++ cause.message
  | illegalState error => error.message
  | redefinitionRejected reason => "Redefinition rejected: " ++ reason
  | retransform name cause => "Can't retransform class '" ++ name ++ "': " ++ cause.message

end Failure

end ClassWeaver
