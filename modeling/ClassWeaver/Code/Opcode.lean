/-!
Opcodes, and the form of the operand that follows each of them.
-/

set_option autoImplicit false
set_option relaxedAutoImplicit false

namespace ClassWeaver.Code

abbrev Opcode := UInt8

namespace Opcode

def nop : Opcode := 0x00
def iconst0 : Opcode := 0x03
def bipush : Opcode := 0x10
def sipush : Opcode := 0x11
def ldc : Opcode := 0x12
def ldcW : Opcode := 0x13
def pop : Opcode := 0x57
def dup : Opcode := 0x59
def iadd : Opcode := 0x60
def iinc : Opcode := 0x84
def areturn : Opcode := 0xb0
def getstatic : Opcode := 0xb2
def putstatic : Opcode := 0xb3
def getfield : Opcode := 0xb4
def putfield : Opcode := 0xb5
def invokespecial : Opcode := 0xb7
def invokestatic : Opcode := 0xb8
def new : Opcode := 0xbb
def wide : Opcode := 0xc4
def gotoW : Opcode := 0xc8
def jsrW : Opcode := 0xc9

end Opcode

/-- How the bytes behind an opcode are to be read. -/
inductive Form where
  | plain
  | byte
  | short
  /-- A pool index in one byte. -/
  | narrowConstant
  | constant
  /-- The number of a local variable. -/
  | slot
  | increment
  | branch
  | wideBranch
  | tableSwitch
  | lookupSwitch
  | interfaceCall
  | dynamicCall
  | arrayType
  | multiArray
  /-- Another opcode follows, with wider operands than it has alone. -/
  | wide
  deriving DecidableEq, Repr

/-- The forms by inclusive ranges of opcodes. -/
def formRanges : List (Nat × Nat × Form) :=
  [(0x00, 0x0f, .plain), (0x10, 0x10, .byte), (0x11, 0x11, .short), (0x12, 0x12, .narrowConstant),
    (0x13, 0x14, .constant), (0x15, 0x19, .slot), (0x1a, 0x35, .plain), (0x36, 0x3a, .slot),
    (0x3b, 0x83, .plain), (0x84, 0x84, .increment), (0x85, 0x98, .plain), (0x99, 0xa8, .branch),
    (0xa9, 0xa9, .slot), (0xaa, 0xaa, .tableSwitch), (0xab, 0xab, .lookupSwitch),
    (0xac, 0xb1, .plain), (0xb2, 0xb8, .constant), (0xb9, 0xb9, .interfaceCall),
    (0xba, 0xba, .dynamicCall), (0xbb, 0xbb, .constant), (0xbc, 0xbc, .arrayType),
    (0xbd, 0xbd, .constant), (0xbe, 0xbf, .plain), (0xc0, 0xc1, .constant), (0xc2, 0xc3, .plain),
    (0xc4, 0xc4, .wide), (0xc5, 0xc5, .multiArray), (0xc6, 0xc7, .branch),
    (0xc8, 0xc9, .wideBranch)]

/-- The form of an opcode; opcodes beyond the last one in use have none. -/
def Opcode.form? (opcode : Opcode) : Option Form :=
  (formRanges.find? fun (first, last, _) ↦ first ≤ opcode.toNat && opcode.toNat ≤ last).map
    fun (_, _, form) ↦ form

end ClassWeaver.Code
