import ClassWeaver.Descriptor
import ClassWeaver.Transformer.Basic

/-!
Returned references that pass through a wrapper.

In the selected method, every `areturn` gets a call of `Factory.m` in front of it, which takes the
returned value and returns one of the same type.
-/

set_option autoImplicit false
set_option relaxedAutoImplicit false

namespace ClassWeaver

open ClassFile Code

structure Wrapper where
  target : String
  /-- A method name, or a name and a descriptor. -/
  method : String
  owner : String
  wrap : String
  policy : FrozenPolicy
  deriving DecidableEq, Repr

namespace Wrapper

/-- Whether a type descriptor is that of a class or an array. -/
def isReference (type : String) : Bool :=
  match type.toList with
  | c :: _ => c == 'L' || c == '['
  | [] => false

/-- The type that a method with this descriptor returns, which has to be a reference. -/
def returnedType (descriptor : String) : Except Fault String :=
  match Descriptor.split descriptor with
  | none => .error (.badDescriptor descriptor)
  | some (_, type) => if isReference type then .ok type else .error (.notAReference type)

/-- The numbers of the instructions that return a reference. -/
def returns (instructions : List Instruction) : List Nat :=
  instructions.zipIdx.filterMap fun (instruction, index) ↦
    if instruction.opcode = .areturn then some index else none

def editBody (wrapper : Wrapper) (method : Member) : BodyEdit Id Unit := do
  let descriptor ← BodyEdit.resolve method.descriptorText
  match returnedType descriptor with
  | .error fault => throw fault
  | .ok type =>
    let index ← BodyEdit.extendPool
      (ConstantPool.addMethodRef ⟨wrapper.owner, wrapper.wrap, Descriptor.join [type] type⟩)
    let editor ← BodyEdit.editor
    (returns editor.instructions.toList).forM fun place ↦
      BodyEdit.record (·.insertBefore place [Instruction.withConstant .invokestatic index])

def editClass (wrapper : Wrapper) : ClassEdit Id Bool := do
  let index ← ClassEdit.ofExcept ((← ClassEdit.current).findMethod wrapper.method)
  ClassEdit.editMethod index wrapper.editBody

def transformer {Loader : Type} (wrapper : Wrapper) : Transformer Loader :=
  .ofTarget "wrap-return" wrapper.target (editUnlessFrozen wrapper.policy wrapper.editClass)

end Wrapper

end ClassWeaver
