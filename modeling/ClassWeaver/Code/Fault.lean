import ClassWeaver.ClassFile.Malformation

/-!
What can be wrong with a method body, or with a change of it.
-/

set_option autoImplicit false
set_option relaxedAutoImplicit false

namespace ClassWeaver.Code

inductive Fault where
  /-- The instruction at `offset` reaches beyond the code, or has an impossible switch. -/
  | truncated (offset : Nat)
  | unknownOpcode (opcode : UInt8) (offset : Nat)
  | badBranchTarget (offset : Nat) (target : Int)
  | branchOverflow (offset : Nat) (distance : Int)
  | codeTooLarge (length : Nat)
  /-- A table of the body names an offset at which no instruction starts. -/
  | danglingOffset (offset : Nat)
  | uninitializedFrame (offset : Nat)
  | unpairedAllocation (type : String) (offset : Nat)
  | unmatchedAllocation (type : String) (offset : Nat)
  | badDescriptor (descriptor : String)
  | notAReference (type : String)
  | malformed (cause : ClassFile.Malformation)
  deriving DecidableEq, Repr

/-- An opcode as two hexadecimal digits. -/
def twoDigits (opcode : UInt8) : String :=
  String.ofList [Nat.digitChar (opcode.toNat / 16), Nat.digitChar (opcode.toNat % 16)]

def Fault.message : Fault → String
  | truncated offset => "truncated instruction at offset " ++ toString offset
  | unknownOpcode opcode offset =>
    "unknown opcode 0x" ++ twoDigits opcode ++ " at offset " ++ toString offset
  | badBranchTarget offset target =>
    "instruction at offset " ++ toString offset ++ " jumps to " ++ toString target ++
      ", which is not an instruction boundary"
  | branchOverflow offset distance =>
    "branch at offset " ++ toString offset ++ " needs offset " ++ toString distance ++
      ", which does not fit in 16 bits"
  | codeTooLarge length => "method code grew to " ++ toString length ++ " bytes"
  | danglingOffset offset =>
    "offset " ++ toString offset ++
      " referenced by a code attribute is not an instruction boundary"
  | uninitializedFrame offset =>
    "a stack map frame still refers to the removed allocation at offset " ++ toString offset
  | unpairedAllocation type offset =>
    "'new " ++ type ++ "' at offset " ++ toString offset ++ " is not directly followed by 'dup'"
  | unmatchedAllocation type offset =>
    "no constructor call completes 'new " ++ type ++ "' at offset " ++ toString offset
  | badDescriptor descriptor => "malformed descriptor '" ++ descriptor ++ "'"
  | notAReference type => "method returns '" ++ type ++ "', which is not a reference type"
  | malformed cause => cause.message

end ClassWeaver.Code
