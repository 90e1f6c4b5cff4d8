import ClassWeaver.Descriptor
import ClassWeaver.Transformer.Basic

/-!
Constructions that become calls of a factory.

In every method of the class, `new T; dup` becomes two `nop`s, and the constructor call
`T.<init>(args)` that completes it becomes `Factory.m(args)`, which returns a `T`. A constructor
call completes the latest allocation before it that is still open. An allocation without a `dup`
behind it, or one that nothing completes, cannot be replaced.
-/

set_option autoImplicit false
set_option relaxedAutoImplicit false

namespace ClassWeaver

open ClassFile Code

/-- All names have slashes. -/
structure Factory where
  target : String
  /-- The class whose constructions are replaced. -/
  product : String
  owner : String
  method : String
  policy : FrozenPolicy
  deriving DecidableEq, Repr

namespace Factory

/-- An allocation that waits for its constructor call. -/
structure Allocation where
  index : Nat
  offset : Nat
  deriving DecidableEq, Repr

/-- An allocation and the constructor call that completes it. -/
structure Construction where
  allocation : Nat
  call : Nat
  descriptor : String
  deriving DecidableEq, Repr

/-- Whether `instruction` allocates a `product`. -/
def allocates (pool : ConstantPool) (product : String) (instruction : Instruction) :
    Except Malformation Bool :=
  if instruction.opcode = .new then
    match instruction.poolIndex? with
    | some index => return (← pool.className index) == product
    | none => return false
  else return false

/-- The descriptor of the constructor of `product` that `instruction` calls, if it does. -/
def constructs? (pool : ConstantPool) (product : String) (instruction : Instruction) :
    Except Malformation (Option String) :=
  if instruction.opcode = .invokespecial then
    match instruction.poolIndex? with
    | some index => do
      let member ← pool.memberRef index
      if member.owner = product ∧ member.name = "<init>" then return some member.descriptor
      else return none
    | none => return none
  else return none

/-- Makes a failure to resolve a pool index a fault of the body. -/
def resolved {α : Type} : Except Malformation α → Except Fault α
  | .ok answer => .ok answer
  | .error cause => .error (.malformed cause)

/-- Pairs the constructions of `product`; `opened` holds the allocations still open, the latest
one first. While none is open, constructor calls are not looked at. -/
def pair (pool : ConstantPool) (product : String) :
    (opened : List Allocation) → List (Instruction × Nat) → Except Fault (List Construction)
  | opened, [] =>
    match opened.getLast? with
    | some allocation => .error (.unmatchedAllocation product allocation.offset)
    | none => .ok []
  | opened, (instruction, index) :: rest => do
    if ← resolved (allocates pool product instruction) then
      let offset := instruction.origin.getD 0
      match rest with
      | (next, _) :: _ =>
        if next.opcode ≠ .dup then throw (.unpairedAllocation product offset)
      | [] => throw (.unpairedAllocation product offset)
      pair pool product (⟨index, offset⟩ :: opened) rest
    else
      match opened with
      | [] => pair pool product [] rest
      | latest :: others =>
        match ← resolved (constructs? pool product instruction) with
        | some descriptor =>
          return ⟨latest.index, index, descriptor⟩ :: (← pair pool product others rest)
        | none => pair pool product opened rest

/-- The descriptor of the factory method that takes the arguments of a constructor. -/
def factoryDescriptor (product descriptor : String) : Except Fault String :=
  match Descriptor.split descriptor with
  | some (parameters, _) => .ok (Descriptor.join parameters ("L" ++ product ++ ";"))
  | none => .error (.badDescriptor descriptor)

def replaceConstruction (factory : Factory) (found : Construction) : BodyEdit Id Unit := do
  match factoryDescriptor factory.product found.descriptor with
  | .error fault => throw fault
  | .ok descriptor =>
    let index ← BodyEdit.extendPool
      (ConstantPool.addMethodRef ⟨factory.owner, factory.method, descriptor⟩)
    BodyEdit.record fun editor ↦
      ((editor.replace found.allocation [Instruction.plain .nop]).replace (found.allocation + 1)
        [Instruction.plain .nop]).replace found.call [Instruction.withConstant .invokestatic index]

def editBody (factory : Factory) : BodyEdit Id Unit := do
  let editor ← BodyEdit.editor
  match pair editor.pool factory.product [] editor.instructions.toList.zipIdx with
  | .error fault => throw fault
  | .ok found => found.forM factory.replaceConstruction

/-- Edits the methods with the given numbers and tells whether any of them changed. -/
def editMethods (factory : Factory) : List Nat → ClassEdit Id Bool
  | [] => return false
  | index :: rest => do
    let changed ← ClassEdit.editMethod index fun _ ↦ factory.editBody
    return changed || (← factory.editMethods rest)

def editClass (factory : Factory) : ClassEdit Id Bool := do
  let cls ← ClassEdit.current
  factory.editMethods (List.range cls.file.methods.length)

def transformer {Loader : Type} (factory : Factory) : Transformer Loader :=
  .ofTarget "replace-new" factory.target (editUnlessFrozen factory.policy factory.editClass)

end Factory

end ClassWeaver
