import ClassWeaver.Transformer.Basic

/-!
Assignments to `int` fields that become increments.

In the selected method, `putfield f` becomes `pop; dup; getfield f; k; iadd; putfield f` and
`putstatic f` becomes `pop; getstatic f; k; iadd; putstatic f`: the assigned value is dropped, and
the field grows by the constant `k` instead. That takes one more place on the stack.
-/

set_option autoImplicit false
set_option relaxedAutoImplicit false

namespace ClassWeaver

open Code

structure Increment where
  target : String
  /-- A method name, or a name and a descriptor. -/
  method : String
  amount : Int32
  policy : FrozenPolicy
  deriving DecidableEq, Repr

namespace Increment

/-- An instruction that assigns to a field. -/
structure Assignment where
  index : Nat
  opcode : Opcode
  field : UInt16
  deriving DecidableEq, Repr

def assignment? (instruction : Instruction) (index : Nat) : Option Assignment :=
  if instruction.opcode = .putfield ∨ instruction.opcode = .putstatic then
    instruction.poolIndex?.map fun field ↦ ⟨index, instruction.opcode, field⟩
  else none

def assignments (instructions : List Instruction) : List Assignment :=
  instructions.zipIdx.filterMap fun (instruction, index) ↦ assignment? instruction index

/-- The instructions that add what `push` pushes to the field. -/
def addition (found : Assignment) (push : Instruction) : List Instruction :=
  let read :=
    if found.opcode = .putfield then
      [Instruction.plain .dup, Instruction.withConstant .getfield found.field]
    else [Instruction.withConstant .getstatic found.field]
  Instruction.plain .pop :: read ++
    [push, Instruction.plain .iadd, Instruction.withConstant found.opcode found.field]

/-- Replaces one assignment, if its field is an `int`. -/
def replaceAssignment (amount : Int32) (found : Assignment) : BodyEdit Id Unit := do
  let member ← BodyEdit.resolve (·.memberRef found.field)
  if member.descriptor = "I" then
    let push ← BodyEdit.extendPool (Instruction.pushInt amount)
    BodyEdit.record fun editor ↦ (editor.replace found.index (addition found push)).reserveStack 1

def editBody (amount : Int32) : BodyEdit Id Unit := do
  let editor ← BodyEdit.editor
  (assignments editor.instructions.toList).forM (replaceAssignment amount)

def editClass (increment : Increment) : ClassEdit Id Bool := do
  let index ← ClassEdit.ofExcept ((← ClassEdit.current).findMethod increment.method)
  ClassEdit.editMethod index fun _ ↦ editBody increment.amount

def transformer {Loader : Type} (increment : Increment) : Transformer Loader :=
  .ofTarget "field-write" increment.target (editUnlessFrozen increment.policy increment.editClass)

end Increment

end ClassWeaver
