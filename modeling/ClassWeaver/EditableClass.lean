import ClassWeaver.ClassFile.Parser
import ClassWeaver.ClassName
import ClassWeaver.Code.Editor
import ClassWeaver.Failure

/-!
A class that can be edited and serialized.

Serializing a class freezes it: it refuses edits until it is defrosted, so that the bytes that
were handed out stay the bytes of the class. A class that was never modified serializes to the
bytes it was read from.
-/

set_option autoImplicit false
set_option relaxedAutoImplicit false

namespace ClassWeaver

open ClassFile Code

structure EditableClass where
  name : String
  file : ClassFile
  /-- The bytes that the class was read from. -/
  source : Bytes
  frozen : Bool
  modified : Bool

/-- A change of a class; what was done before a failure stays done. -/
abbrev ClassEdit (m : Type → Type) (α : Type) := ExceptT Failure (StateT EditableClass m) α

namespace EditableClass

/-- The class that `bytes` define, which has to declare itself as `name`, in dotted form. -/
def parse (name : String) (bytes : Bytes) : Except Failure EditableClass :=
  match ClassFile.parse bytes with
  | .error cause => .error (.malformed name cause)
  | .ok file =>
    match file.thisName with
    | .error cause => .error (.malformed name cause)
    | .ok declared =>
      let declared := ClassName.dotted declared
      if declared ≠ name then .error (.illegalState (.misnamed name declared))
      else .ok { name, file, source := bytes, frozen := false, modified := false }

/-- Names and descriptors of the methods; a method for which either leads nowhere is left out. -/
def methods (cls : EditableClass) : List (String × String) :=
  cls.file.methods.filterMap fun method ↦ do
    let name ← (method.nameText cls.file.pool).toOption
    let descriptor ← (method.descriptorText cls.file.pool).toOption
    return (name, descriptor)

def defrost (cls : EditableClass) : EditableClass :=
  { cls with frozen := false }

/-- The bytes of the class. -/
def bytes (cls : EditableClass) : Bytes :=
  if cls.modified then cls.file.bytes else cls.source

/-- Puts `body` in the place of the body of method `index`. -/
def setMethodBody (cls : EditableClass) (index : Nat) (body : MethodBody) : EditableClass :=
  let methods := cls.file.methods.modify index (·.setBody body)
  { cls with file := { cls.file with methods } }

/-- The number of the method that `selector` selects, which is a name or a name and a
descriptor. -/
def findMethod (cls : EditableClass) (selector : String) : Except Failure Nat :=
  let name := selector.toList.takeWhile (· ≠ '(')
  let descriptor := selector.toList.dropWhile (· ≠ '(')
  let found := cls.file.findMethod? (String.ofList name)
    (if descriptor.isEmpty then none else some (String.ofList descriptor))
  match found with
  | some index => .ok index
  | none => .error (.memberNotFound cls.name ("method '" ++ selector ++ "'"))

end EditableClass

namespace ClassEdit

variable {m : Type → Type} [Monad m] {α : Type}

def current : ClassEdit m EditableClass := get

def ofExcept (result : Except Failure α) : ClassEdit m α :=
  ExceptT.mk (pure result)

def requireThawed : ClassEdit m Unit := do
  let cls ← current
  if cls.frozen then throw (.illegalState (.frozen cls.name))

/-- Serializes the class and freezes it. -/
def serialize : ClassEdit m Bytes := do
  let cls ← current
  set { cls with frozen := true }
  return cls.bytes

def defrost : ClassEdit m Unit := modify EditableClass.defrost

/-- Changes the class file directly. The class counts as modified, whatever the change is. -/
def changeFile (change : StateT ClassFile m α) : ClassEdit m α := do
  requireThawed
  let cls ← current
  let (answer, file) ← (change.run cls.file : m _)
  set { cls with file, modified := true }
  return answer

/-- Edits the body of method `index` and tells whether that changed it; a method without a body
is not changed. Additions to the constant pool stay even if the edit fails. -/
def editMethod (index : Nat) (edit : Member → BodyEdit m Unit) : ClassEdit m Bool := do
  requireThawed
  let cls ← current
  match cls.file.methods[index]? with
  | none => throw (.illegalState (.noSuchMethod index cls.name))
  | some method =>
    match method.body? with
    | none => return false
    | some body =>
      match Editor.ofBody cls.file.pool body with
      | .error fault => throw (.uncompilable cls.name fault)
      | .ok editor =>
        let (outcome, editor) ← ((edit method).run.run editor : m _)
        let cls := { cls with file := { cls.file with pool := editor.pool } }
        set cls
        match outcome with
        | .error fault => throw (.uncompilable cls.name fault)
        | .ok () =>
          if editor.isModified then
            let applied := editor.apply body
            let cls := cls.setMethodBody index applied.value
            set cls
            match applied.failure with
            | some fault => throw (.uncompilable cls.name fault)
            | none =>
              set { cls with modified := true }
              return true
          else return false

/-- Runs `edit` as a whole or not at all: if it fails, the class file is as it was before. -/
def atomically (edit : ClassEdit m α) : ClassEdit m α := do
  let before ← current
  tryCatch edit fun failure ↦ do
    modify fun cls ↦ { cls with file := before.file, modified := before.modified }
    throw failure

end ClassEdit

end ClassWeaver
