import ClassWeaver.Search.Access

/-!
The record of what was added to a search path.

The search path of a pool is the prepended entries, the latest one first, then the system path,
then the appended entries in order. An entry is recorded at most once on each side, so that a
pool can be given the same path again later.
-/

set_option autoImplicit false
set_option relaxedAutoImplicit false

namespace ClassWeaver.Search

inductive Side where
  | front
  | back
  deriving DecidableEq, Repr

structure Registry (Loader : Type) where
  system : List (Entry Loader)
  /-- In the order in which they were added. -/
  prepended : List (Entry Loader)
  appended : List (Entry Loader)
  /-- Whether the next pool gets the recorded entries. -/
  preserve : Bool

namespace Registry

variable {World Loader : Type}

def ofSystem (system : List (Entry Loader)) : Registry Loader :=
  ⟨system, [], [], false⟩

def recorded (registry : Registry Loader) : Side → List (Entry Loader)
  | .front => registry.prepended
  | .back => registry.appended

def add (registry : Registry Loader) (side : Side) (entry : Entry Loader) : Registry Loader :=
  match side with
  | .front => { registry with prepended := registry.prepended ++ [entry] }
  | .back => { registry with appended := registry.appended ++ [entry] }

/-- All entries that are recorded anywhere. -/
def entries (registry : Registry Loader) : List (Entry Loader) :=
  registry.system ++ registry.prepended ++ registry.appended

/-- Puts an entry at one end of a search path. -/
def place (side : Side) (entry : Entry Loader) (path : List (Entry Loader)) :
    List (Entry Loader) :=
  match side with
  | .front => entry :: path
  | .back => path ++ [entry]

/-- Whether one of `entries` stands for the same thing as `entry`. -/
def hasSame (access : Access World Loader) (entry : Entry Loader) :
    List (Entry Loader) → StateM World Bool
  | [] => return false
  | known :: rest => do
    if ← known.same access entry then return true else hasSame access entry rest

/-- Records `entry` and puts it on the search path, unless it is recorded on that side. -/
def register (access : Access World Loader) (side : Side) (entry : Entry Loader)
    (registry : Registry Loader) (path : List (Entry Loader)) :
    StateM World (Option (Registry Loader × List (Entry Loader))) := do
  if ← hasSame access entry (registry.recorded side) then return none
  else return some (registry.add side entry, place side entry path)

/-- Registers entries one after the other. -/
def replay (access : Access World Loader) (side : Side) :
    List (Entry Loader) → Registry Loader → List (Entry Loader) →
      StateM World (Registry Loader × List (Entry Loader))
  | [], registry, path => return (registry, path)
  | entry :: rest, registry, path => do
    match ← register access side entry registry path with
    | some (registry, path) => replay access side rest registry path
    | none => replay access side rest registry path

/-- The search path of a new pool, and the record afterwards. -/
def newPath (access : Access World Loader) (registry : Registry Loader) :
    StateM World (Registry Loader × List (Entry Loader)) := do
  if registry.preserve then
    let emptied := { registry with prepended := [], appended := [] }
    let (registry', path) ← replay access .front registry.prepended emptied registry.system
    replay access .back registry.appended registry' path
  else return (registry, registry.system)

/-- Forgets the recorded entries unless the next pool is to have them. -/
def renew (registry : Registry Loader) (preserve : Bool) : Registry Loader :=
  if preserve then { registry with preserve }
  else { registry with prepended := [], appended := [], preserve }

end Registry

end ClassWeaver.Search
