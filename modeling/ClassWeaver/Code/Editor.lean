import ClassWeaver.Code.Decode
import ClassWeaver.Code.Relocate
import Std.Data.TreeMap

/-!
Editing a method body.

An editor holds the instructions of a body and, by their numbers, what is to stand in their
place. The instructions themselves do not change while edits are recorded, so that numbers stay
valid; a later record for the same number takes the place of an earlier one. Applying the edits
lays the body out anew. The first instruction of a replacement inherits the origin of the one it
replaces, so that jumps to the old instruction land there.
-/

set_option autoImplicit false
set_option relaxedAutoImplicit false

namespace ClassWeaver.Code

open ClassFile

structure Editor where
  pool : ConstantPool
  instructions : Array Instruction
  replacements : Std.TreeMap Nat (List Instruction)
  /-- The origins of allocations that were replaced by something else. -/
  removed : Std.TreeSet Nat
  extraStack : UInt16

namespace Editor

/-- An editor without edits. -/
def ofBody (pool : ConstantPool) (body : MethodBody) : Except Fault Editor := do
  let instructions ← decode body.code
  return {
    pool
    instructions := instructions.toArray
    replacements := ∅
    removed := ∅
    extraStack := 0 }

/-- Records `code` as the replacement of instruction `index`; nothing is replaced by a `nop`. -/
def replace (editor : Editor) (index : Nat) (code : List Instruction) : Editor :=
  match editor.instructions[index]? with
  | none => editor
  | some old =>
    let code := if code.isEmpty then [Instruction.plain .nop] else code
    let allocates := (code.head?.map Instruction.opcode) == some Opcode.new
    let removed :=
      match old.origin with
      | some origin =>
        if old.opcode = .new ∧ ¬ allocates then editor.removed.insert origin else editor.removed
      | none => editor.removed
    { editor with replacements := editor.replacements.insert index code, removed }

/-- Records `code` in front of instruction `index`; jumps to the instruction run `code` first. -/
def insertBefore (editor : Editor) (index : Nat) (code : List Instruction) : Editor :=
  match editor.instructions[index]? with
  | none => editor
  | some old =>
    let code := code ++ [{ old with origin := none }]
    { editor with replacements := editor.replacements.insert index code }

/-- Asks for room for at least `extra` more values on the stack. -/
def reserveStack (editor : Editor) (extra : UInt16) : Editor :=
  { editor with extraStack := max editor.extraStack extra }

def isModified (editor : Editor) : Bool :=
  !editor.replacements.isEmpty

/-- Gives the first instruction of a replacement the origin of the one it replaces. -/
def inherit (origin : Option Nat) : List Instruction → List Instruction
  | [] => []
  | first :: rest => { first with origin } :: rest.map fun other ↦ { other with origin := none }

/-- What stands in the place of instruction `index`. -/
def standIn (editor : Editor) (index : Nat) (old : Instruction) : List Instruction :=
  match editor.replacements[index]? with
  | some code => inherit old.origin code
  | none => [old]

/-- The instructions with every replacement in its place. -/
def edited (editor : Editor) : List Instruction :=
  editor.instructions.toList.zipIdx.flatMap fun (old, index) ↦ editor.standIn index old

/-- Puts the edited instructions into `body`. -/
def apply (editor : Editor) (body : MethodBody) : Attempt Fault MethodBody :=
  if editor.isModified then relocateBody body editor.edited editor.removed editor.extraStack
  else .done body

end Editor

/-- A change of a method body; what was done before a failure stays done. -/
abbrev BodyEdit (m : Type → Type) (α : Type) := ExceptT Fault (StateT Editor m) α

namespace BodyEdit

variable {m : Type → Type} [Monad m] {α : Type}

def editor : BodyEdit m Editor := get

def record (change : Editor → Editor) : BodyEdit m Unit := modify change

/-- Reads something out of the constant pool. -/
def resolve (query : ConstantPool → Except Malformation α) : BodyEdit m α := do
  match query (← editor).pool with
  | .ok answer => return answer
  | .error cause => throw (.malformed cause)

/-- Adds something to the constant pool. -/
def extendPool (change : ConstantPool.Edit α) : BodyEdit m α := do
  let (outcome, pool) := change.run.run (← editor).pool
  record fun editor ↦ { editor with pool }
  match outcome with
  | .ok answer => return answer
  | .error cause => throw (.malformed cause)

end BodyEdit

end ClassWeaver.Code
