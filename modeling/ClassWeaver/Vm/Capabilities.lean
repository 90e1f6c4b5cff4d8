/-!
What an agent may do to a running machine.

Capabilities are a set of bits. An agent asks for the ones that it wants, as far as the machine
offers them.
-/

set_option autoImplicit false
set_option relaxedAutoImplicit false

namespace ClassWeaver.Vm

/-- The capabilities that have to do with changing classes. -/
inductive Capability where
  | redefineClasses
  | redefineAnyClass
  /-- To see every class that is loaded. -/
  | allClassHooks
  | retransformClasses
  | retransformAnyClass
  deriving DecidableEq, Repr

/-- The number of the bit. -/
def Capability.bit : Capability → Nat
  | redefineClasses => 9
  | redefineAnyClass => 21
  | allClassHooks => 26
  | retransformClasses => 37
  | retransformAnyClass => 38

structure Capabilities where
  bits : BitVec 128
  deriving DecidableEq, Repr

namespace Capabilities

def none : Capabilities :=
  ⟨0⟩

def has (capabilities : Capabilities) (capability : Capability) : Bool :=
  capabilities.bits.getLsbD capability.bit

/-- Puts a capability in or takes it out. -/
def set (capabilities : Capabilities) (capability : Capability) (on : Bool) : Capabilities :=
  let bit := BitVec.twoPow 128 capability.bit
  if on then ⟨capabilities.bits ||| bit⟩ else ⟨capabilities.bits &&& ~~~bit⟩

def inter (capabilities other : Capabilities) : Capabilities :=
  ⟨capabilities.bits &&& other.bits⟩

def union (capabilities other : Capabilities) : Capabilities :=
  ⟨capabilities.bits ||| other.bits⟩

def ofList (bits : List Nat) : Capabilities :=
  ⟨bits.foldl (fun set bit ↦ set ||| BitVec.twoPow 128 bit) 0⟩

/-- The numbers of the bits, ascending. -/
def toList (capabilities : Capabilities) : List Nat :=
  (List.range 128).filter capabilities.bits.getLsbD

/-- What an agent that changes classes wants. -/
def wanted : Capabilities :=
  none |>.set .redefineClasses true |>.set .retransformClasses true |>.set .allClassHooks true

end Capabilities

end ClassWeaver.Vm
