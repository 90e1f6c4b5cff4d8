import ClassWeaver.Transformer.Basic
import ClassWeaver.Workspace

/-!
Running transformers on a class that is being loaded.

A transformer reads the class from the pool and not from the bytes being loaded, holding the lock
of the workspace in shared mode. In a chain, every transformer runs by itself; of the results, the
last one counts, and one that fails contributes nothing.
-/

set_option autoImplicit false
set_option relaxedAutoImplicit false

namespace ClassWeaver

open Search

namespace Workspace

variable {World Loader : Type}

/-- Fetches the class and changes it. -/
def fetchAndWeave (access : Access World Loader) (transformer : Transformer Loader)
    (loader : Option Loader) (name : String) : FailingWork World Loader (Option Bytes) := do
  let id ← getClassFor access loader name
  edit id transformer.weave

/-- The new bytes of the class called `name`, in the spelling with slashes. -/
def transform (access : Access World Loader) (transformer : Transformer Loader)
    (loader : Option Loader) (name : String) :
    Work World Loader (Except Failure (Option Bytes)) :=
  if transformer.accept loader name then
    shared (fetchAndWeave access transformer loader name).run
  else return .ok none

/-- The bytes that a chain leaves the class with, if any of its transformers made some. -/
def transformChain (access : Access World Loader) (loader : Option Loader) (name : String) :
    List (Transformer Loader) → Work World Loader (Option Bytes)
  | [] => return none
  | transformer :: rest => do
    let result ← transform access transformer loader name
    match ← transformChain access loader name rest with
    | some bytes => return some bytes
    | none =>
      match result with
      | .ok bytes => return bytes
      | .error _ => return none

end Workspace

end ClassWeaver
