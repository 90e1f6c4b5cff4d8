import ClassWeaver.ClassFile.ConstantPool
import ClassWeaver.Code.Fault
import ClassWeaver.Code.Opcode

/-!
Instructions.

A branch names its target by the offset that the target had in the body it was read from, and so
does every row of a switch. An instruction that was read remembers its own offset there as its
origin; one that was made has none. A widened instruction is held under the opcode it widens.
-/

set_option autoImplicit false
set_option relaxedAutoImplicit false

namespace ClassWeaver.Code

inductive Operand where
  | none
  | byte (value : Int8)
  | short (value : Int16)
  | constant (index : UInt16)
  | slot (index : UInt16)
  | increment (index : UInt16) (amount : Int16)
  | branch (target : Nat)
  | tableSwitch (otherwise : Nat) (low high : Int32) (targets : List Nat)
  | lookupSwitch (otherwise : Nat) (rows : List (Int32 × Nat))
  | interfaceCall (index : UInt16) (count : UInt8)
  | dynamicCall (index : UInt16)
  | arrayType (type : UInt8)
  | multiArray (index : UInt16) (dimensions : UInt8)
  deriving DecidableEq, Repr

structure Instruction where
  opcode : Opcode
  operand : Operand
  origin : Option Nat
  deriving DecidableEq, Repr

/-- The offsets that an instruction may jump to, a switch's default first. -/
def Operand.targets : Operand → List Nat
  | .branch target => [target]
  | .tableSwitch otherwise _ _ targets => otherwise :: targets
  | .lookupSwitch otherwise rows => otherwise :: rows.map Prod.snd
  | _ => []

/-- The bytes between the opcode of a switch and its default; the default is aligned to four. -/
def switchPadding (offset : Nat) : Nat :=
  (4 - (offset + 1) % 4) % 4

/-- Whether a signed number fits into one byte. -/
def fitsByte (value : Int) : Bool :=
  -128 ≤ value && value ≤ 127

/-- Whether a signed number fits into two bytes. -/
def fitsShort (value : Int) : Bool :=
  -32768 ≤ value && value ≤ 32767

/-- The largest index that fits into one byte. -/
def narrowIndex : UInt16 :=
  255

namespace Instruction

def plain (opcode : Opcode) : Instruction :=
  ⟨opcode, .none, none⟩

def withConstant (opcode : Opcode) (index : UInt16) : Instruction :=
  ⟨opcode, .constant index, none⟩

/-- The shortest instruction that pushes `value`; a value beyond two bytes goes to the pool. -/
def pushInt (value : Int32) : ClassFile.ConstantPool.Edit Instruction := do
  let number := value.toInt
  if -1 ≤ number ∧ number ≤ 5 then
    return plain (UInt8.ofNat (Opcode.iconst0.toNat + number).toNat)
  else if fitsByte number then return ⟨.bipush, .byte value.toInt8, none⟩
  else if fitsShort number then return ⟨.sipush, .short value.toInt16, none⟩
  else return withConstant .ldcW (← ClassFile.ConstantPool.addInteger value)

/-- The pool index in the operand. -/
def poolIndex? (instruction : Instruction) : Option UInt16 :=
  match instruction.operand with
  | .constant index | .interfaceCall index _ | .dynamicCall index | .multiArray index _ =>
    some index
  | _ => Option.none

/-- The number of bytes that the instruction takes when it stands at `offset`. -/
def size (instruction : Instruction) (offset : Nat) : Nat :=
  match instruction.operand with
  | .none => 1
  | .byte _ | .arrayType _ => 2
  | .short _ => 3
  | .constant index => if instruction.opcode = .ldc ∧ index ≤ narrowIndex then 2 else 3
  | .slot index => if narrowIndex < index then 4 else 2
  | .increment index amount =>
    if narrowIndex < index ∨ ¬ fitsByte amount.toInt then 6 else 3
  | .branch _ => if instruction.opcode = .gotoW ∨ instruction.opcode = .jsrW then 5 else 3
  | .tableSwitch _ _ _ targets => 1 + switchPadding offset + 12 + 4 * targets.length
  | .lookupSwitch _ rows => 1 + switchPadding offset + 8 + 8 * rows.length
  | .interfaceCall _ _ | .dynamicCall _ => 5
  | .multiArray _ _ => 4

theorem size_pos (instruction : Instruction) (offset : Nat) : 0 < instruction.size offset := by
  unfold size
  split <;> (try split) <;> omega

end Instruction

end ClassWeaver.Code
