/-!
The codes with which a machine says why it did not do something.
-/

set_option autoImplicit false
set_option relaxedAutoImplicit false

namespace ClassWeaver.Vm

structure ErrorCode where
  value : UInt32
  deriving DecidableEq, Repr

namespace ErrorCode

/-- No error. -/
def success : ErrorCode := ⟨0⟩

def invalidClass : ErrorCode := ⟨21⟩

def unmodifiableClass : ErrorCode := ⟨79⟩

/-- The machine does not have the function. -/
def notAvailable : ErrorCode := ⟨98⟩

def nullPointer : ErrorCode := ⟨100⟩

def illegalArgument : ErrorCode := ⟨103⟩

def outOfMemory : ErrorCode := ⟨110⟩

/-- Whether the code is about the new definition of a class, and not about the attempt to give
it to the machine. The codes from 60 to 72 are about class files that do not fit. -/
def refusesRedefinition (code : ErrorCode) : Bool :=
  (60 ≤ code.value && code.value ≤ 72) || code == unmodifiableClass || code == invalidClass

end ErrorCode

end ClassWeaver.Vm
