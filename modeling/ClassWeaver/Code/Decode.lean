import ClassWeaver.Bytes
import ClassWeaver.Code.Instruction
import Std.Data.TreeSet

/-!
Reading the instructions of a method body.

Instructions are read one behind the other from the first byte to the last. Afterwards every
branch has to land on the start of an instruction. A switch whose row count does not fit into the
rest of the code counts as cut off.
-/

set_option autoImplicit false
set_option relaxedAutoImplicit false

namespace ClassWeaver.Code

/-- The offset `distance` away from the instruction at `offset`, as an unsigned 32-bit number. -/
def jumpTarget (offset : Nat) (distance : Int) : Except Fault Nat :=
  let target := (offset : Int) + distance
  if 0 ≤ target ∧ target < 4294967296 then .ok target.toNat
  else .error (.badBranchTarget offset target)

/-- An instruction as it was read, and the number of bytes it was read from. -/
structure Reading where
  opcode : Opcode
  operand : Operand
  width : Nat
  deriving DecidableEq, Repr

namespace Reading

section

variable (offset : Nat)

abbrev Reader (α : Type) := Parser Fault α

def u1 : Reader UInt8 := Parser.u1 (.truncated offset)
def u2 : Reader UInt16 := Parser.u2 (.truncated offset)
def i4 : Reader Int32 := do return (← Parser.u4 (.truncated offset)).toInt32

/-- Fails unless `count` more bytes follow. -/
def require (count : Nat) : Reader Unit := fun input ↦
  if (input.take count).length = count then .ok ((), input) else .error (.truncated offset)

/-- The target of a distance in four bytes. -/
def farTarget : Reader Nat := do
  jumpTarget offset (← i4 offset).toInt

/-- A row of a lookup switch. -/
def lookupRow : Reader (Int32 × Nat) := do
  return (← i4 offset, ← farTarget offset)

/-- The operand of the opcode behind a `wide`. -/
def widened (opcode : Opcode) : Reader Reading := do
  match opcode.form? with
  | some .increment => return ⟨opcode, .increment (← u2 offset) (← u2 offset).toInt16, 6⟩
  | some .slot => return ⟨opcode, .slot (← u2 offset), 4⟩
  | _ => throw (.unknownOpcode opcode offset)

/-- The operand behind `opcode`, in the form that the opcode has. -/
def behind (opcode : Opcode) : Form → Reader Reading
  | .plain => return ⟨opcode, .none, 1⟩
  | .byte => return ⟨opcode, .byte (← u1 offset).toInt8, 2⟩
  | .short => return ⟨opcode, .short (← u2 offset).toInt16, 3⟩
  | .narrowConstant => return ⟨opcode, .constant (← u1 offset).toUInt16, 2⟩
  | .constant => return ⟨opcode, .constant (← u2 offset), 3⟩
  | .slot => return ⟨opcode, .slot (← u1 offset).toUInt16, 2⟩
  | .increment => do
    return ⟨opcode, .increment (← u1 offset).toUInt16 (← u1 offset).toInt8.toInt16, 3⟩
  | .branch => do
    let distance ← u2 offset
    return ⟨opcode, .branch (← jumpTarget offset distance.toInt16.toInt), 3⟩
  | .wideBranch => return ⟨opcode, .branch (← farTarget offset), 5⟩
  | .tableSwitch => do
    let _ ← Parser.take (.truncated offset) (switchPadding offset)
    let otherwise ← farTarget offset
    let low ← i4 offset
    let high ← i4 offset
    if high.toInt < low.toInt then throw (.truncated offset)
    let count := (high.toInt - low.toInt + 1).toNat
    require offset (4 * count)
    let targets ← Parser.times (farTarget offset) count
    return ⟨opcode, .tableSwitch otherwise low high targets,
      1 + switchPadding offset + 12 + 4 * count⟩
  | .lookupSwitch => do
    let _ ← Parser.take (.truncated offset) (switchPadding offset)
    let otherwise ← farTarget offset
    let declared ← i4 offset
    if declared.toInt < 0 then throw (.truncated offset)
    let count := declared.toInt.toNat
    require offset (8 * count)
    let rows ← Parser.times (lookupRow offset) count
    return ⟨opcode, .lookupSwitch otherwise rows, 1 + switchPadding offset + 8 + 8 * count⟩
  | .interfaceCall => do
    let index ← u2 offset
    let count ← u1 offset
    let _ ← u1 offset
    return ⟨opcode, .interfaceCall index count, 5⟩
  | .dynamicCall => do
    let index ← u2 offset
    let _ ← u2 offset
    return ⟨opcode, .dynamicCall index, 5⟩
  | .arrayType => return ⟨opcode, .arrayType (← u1 offset), 2⟩
  | .multiArray => return ⟨opcode, .multiArray (← u2 offset) (← u1 offset), 4⟩
  | .wide => do widened offset (← u1 offset)

/-- The instruction that starts with the next byte, which stands at `offset`. -/
def next : Reader Reading := do
  let opcode : Opcode ← u1 offset
  match opcode.form? with
  | some form => behind offset opcode form
  | none => throw (.unknownOpcode opcode offset)

end

end Reading

/-- The instructions of `code`, whose first byte stands at `offset`. Each takes at least one
byte, so the number of bytes bounds their number. -/
def readFrom : (bound offset : Nat) → (code : Bytes) → Except Fault (List Instruction)
  | _, _, [] => .ok []
  | 0, _, _ => .ok []
  | bound + 1, offset, code => do
    let (reading, rest) ← Reading.next offset code
    let others ← readFrom bound (offset + reading.width) rest
    return ⟨reading.opcode, reading.operand, some offset⟩ :: others

/-- Refuses a jump from `instruction` to an offset that is not in `starts`. -/
def checkTargets (starts : Std.TreeSet Nat) (instruction : Instruction) : Except Fault Unit :=
  match instruction.operand.targets.find? fun target ↦ !starts.contains target with
  | some target => .error (.badBranchTarget (instruction.origin.getD 0) target)
  | none => .ok ()

/-- The instructions of a method body, all of whose jumps land on instructions. -/
def decode (code : Bytes) : Except Fault (List Instruction) := do
  let instructions ← readFrom code.length 0 code
  let starts := Std.TreeSet.ofList (instructions.filterMap Instruction.origin)
  instructions.forM (checkTargets starts)
  return instructions

end ClassWeaver.Code
