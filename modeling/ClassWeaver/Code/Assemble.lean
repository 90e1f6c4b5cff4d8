import ClassWeaver.Bytes
import ClassWeaver.Code.Instruction
import Std.Data.TreeMap

/-!
Writing instructions as a method body.

Instructions are laid out one behind the other. The offset that an instruction had before is
mapped to the offset that it has now, and its jumps are written as distances to where their
targets have moved. Operands that outgrow their short form take the wide one by themselves;
a two-byte branch does not, and fails when its target is too far away.
-/

set_option autoImplicit false
set_option relaxedAutoImplicit false

namespace ClassWeaver.Code

/-- The largest length of a method body. -/
def maxCodeLength : Nat :=
  65535

/-! ### Layout -/

/-- Each instruction with the offset it gets when the first one stands at `offset`. -/
def layout : (offset : Nat) → List Instruction → List (Nat × Instruction)
  | _, [] => []
  | offset, instruction :: rest =>
    (offset, instruction) :: layout (offset + instruction.size offset) rest

/-- The offset behind the last instruction. -/
def layoutEnd (offset : Nat) (instructions : List Instruction) : Nat :=
  instructions.foldl (fun offset instruction ↦ offset + instruction.size offset) offset

/-- Where the offsets of a body have moved. -/
structure Relocation where
  moved : Std.TreeMap Nat Nat
  oldLength : Nat
  newLength : Nat

namespace Relocation

/-- The new offset for an old one; the end of the old body moves to the end of the new one. -/
def map (relocation : Relocation) (offset : Nat) : Except Fault Nat :=
  if offset = relocation.oldLength then .ok relocation.newLength
  else
    match relocation.moved[offset]? with
    | some new => .ok new
    | none => .error (.danglingOffset offset)

/-- How far the new place of `target` is from `offset`. -/
def distance (relocation : Relocation) (offset target : Nat) : Except Fault Int := do
  return (← relocation.map target) - offset

/-- Of several instructions with one origin, the first counts. -/
def ofLayout (oldLength : Nat) (instructions : List Instruction) : Relocation where
  moved := (layout 0 instructions).foldl
    (fun moved (offset, instruction) ↦
      match instruction.origin with
      | some origin => moved.insertIfNew origin offset
      | none => moved) ∅
  oldLength
  newLength := layoutEnd 0 instructions

end Relocation

/-! ### Encoding -/

def signed16 (value : Int) : Bytes :=
  bytes16 (Int16.ofInt value).toUInt16

def signed32 (value : Int) : Bytes :=
  bytes32 (Int32.ofInt value).toUInt32

/-- The bytes of a row of a lookup switch that stands at `offset`. -/
def encodeRow (relocation : Relocation) (offset : Nat) (row : Int32 × Nat) :
    Except Fault Bytes := do
  return bytes32 row.1.toUInt32 ++ signed32 (← relocation.distance offset row.2)

namespace Instruction

/-- The bytes of an instruction that stands at `offset`. -/
def encode (relocation : Relocation) (offset : Nat) (instruction : Instruction) :
    Except Fault Bytes := do
  let opcode := instruction.opcode
  let padding := List.replicate (switchPadding offset) 0
  match instruction.operand with
  | .none => return [opcode]
  | .byte value => return [opcode, value.toUInt8]
  | .arrayType type => return [opcode, type]
  | .short value => return opcode :: bytes16 value.toUInt16
  | .constant index =>
    if opcode = .ldc ∧ index ≤ narrowIndex then return [opcode, index.toUInt8]
    else return (if opcode = .ldc then Opcode.ldcW else opcode) :: bytes16 index
  | .slot index =>
    if narrowIndex < index then return Opcode.wide :: opcode :: bytes16 index
    else return [opcode, index.toUInt8]
  | .increment index amount =>
    if narrowIndex < index ∨ ¬ fitsByte amount.toInt then
      return Opcode.wide :: Opcode.iinc :: bytes16 index ++ bytes16 amount.toUInt16
    else return [Opcode.iinc, index.toUInt8, amount.toInt8.toUInt8]
  | .branch target =>
    let distance ← relocation.distance offset target
    if opcode = .gotoW ∨ opcode = .jsrW then return opcode :: signed32 distance
    else if fitsShort distance then return opcode :: signed16 distance
    else throw (.branchOverflow offset distance)
  | .tableSwitch otherwise low high targets =>
    let otherwise ← relocation.distance offset otherwise
    let distances ← targets.mapM (relocation.distance offset)
    return opcode :: padding ++ signed32 otherwise ++ bytes32 low.toUInt32 ++
      bytes32 high.toUInt32 ++ distances.flatMap signed32
  | .lookupSwitch otherwise rows =>
    let otherwise ← relocation.distance offset otherwise
    let encoded ← rows.mapM (encodeRow relocation offset)
    return opcode :: padding ++ signed32 otherwise ++
      bytes32 (UInt32.ofNat rows.length) ++ encoded.flatten
  | .interfaceCall index count => return opcode :: bytes16 index ++ [count, 0]
  | .dynamicCall index => return opcode :: bytes16 index ++ [0, 0]
  | .multiArray index dimensions => return opcode :: bytes16 index ++ [dimensions]

end Instruction

/-- The body that `instructions` make up, and where the offsets of the body that they were read
from, of length `oldLength`, have moved. -/
def assemble (instructions : List Instruction) (oldLength : Nat) :
    Except Fault (Bytes × Relocation) := do
  let relocation := Relocation.ofLayout oldLength instructions
  if maxCodeLength < relocation.newLength then throw (.codeTooLarge relocation.newLength)
  let encoded ← (layout 0 instructions).mapM fun (offset, instruction) ↦
    instruction.encode relocation offset
  return (encoded.flatten, relocation)

end ClassWeaver.Code
