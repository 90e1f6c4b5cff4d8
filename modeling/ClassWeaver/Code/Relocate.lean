import ClassWeaver.Attempt
import ClassWeaver.ClassFile.Basic
import ClassWeaver.Code.Assemble
import Std.Data.TreeSet

/-!
Moving the tables of a method body along with its code.

Exception handlers, line numbers, ranges of local variables and stack map frames name offsets of
the old code; each is taken through the relocation. Type annotations also name offsets, in a form
that is not read here, and are left out. A change that fails part of the way leaves the tables it
has dealt with moved and the others as they were.
-/

set_option autoImplicit false
set_option relaxedAutoImplicit false

namespace ClassWeaver.Code

open ClassFile

namespace Relocation

/-- The new offset for an old one as it is written in a table. -/
def mapWord (relocation : Relocation) (offset : UInt16) : Except Fault UInt16 :=
  return UInt16.ofNat (← relocation.map offset.toNat)

def handler (relocation : Relocation) (row : ExceptionHandler) : Attempt Fault ExceptionHandler :=
  ((Attempt.update row (relocation.mapWord row.start) fun start ↦ { row with start }).andThen
    fun row ↦ Attempt.update row (relocation.mapWord row.stop) fun stop ↦ { row with stop }).andThen
    fun row ↦ Attempt.update row (relocation.mapWord row.handler) fun handler ↦ { row with handler }

def lineNumber (relocation : Relocation) (row : LineNumber) : Attempt Fault LineNumber :=
  Attempt.update row (relocation.mapWord row.start) fun start ↦ { row with start }

/-- A range of code is moved by moving both of its ends. -/
def localVariable (relocation : Relocation) (row : LocalVariable) : Attempt Fault LocalVariable :=
  let range : Except Fault (Nat × Nat) := do
    let start ← relocation.map row.start.toNat
    let stop ← relocation.map (row.start.toNat + row.length.toNat)
    return (start, stop)
  Attempt.update row range fun (start, stop) ↦
    { row with start := UInt16.ofNat start, length := UInt16.ofNat (stop - start) }

/-- An allocation in `removed` is gone, so that no frame may mention it. -/
def verificationType (relocation : Relocation) (removed : Std.TreeSet Nat) :
    VerificationType → Except Fault VerificationType
  | .uninitialized offset =>
    if removed.contains offset.toNat then throw (.uninitializedFrame offset.toNat)
    else return .uninitialized (← relocation.mapWord offset)
  | type => return type

/-- Where a frame stands in the old and in the new code. -/
structure FramePosition where
  old : Nat
  new : Nat

/-- The offset that `delta` leads to from the frame before. -/
def oldPosition (previous : Option FramePosition) (delta : UInt16) : Nat :=
  match previous with
  | none => delta.toNat
  | some previous => previous.old + delta.toNat + 1

/-- The delta that leads to `position` from the frame before. -/
def newDelta (previous : Option FramePosition) (position : Nat) : UInt16 :=
  match previous with
  | none => UInt16.ofNat position
  | some previous => UInt16.ofNat (position - previous.new - 1)

def frameTypes (relocation : Relocation) (removed : Std.TreeSet Nat) (frame : StackMapFrame) :
    Attempt Fault StackMapFrame :=
  (Attempt.each
    (fun type ↦ Attempt.update type (relocation.verificationType removed type) id)
    frame.types).within frame.setTypes

def frames (relocation : Relocation) (removed : Std.TreeSet Nat) :
    (previous : Option FramePosition) → List StackMapFrame → Attempt Fault (List StackMapFrame)
  | _, [] => .done []
  | previous, frame :: rest =>
    let old := oldPosition previous frame.delta
    match relocation.map old with
    | .error fault => ⟨frame :: rest, some fault⟩
    | .ok new =>
      let moved := relocation.frameTypes removed (frame.setDelta (newDelta previous new))
      match moved.failure with
      | some fault => ⟨moved.value :: rest, some fault⟩
      | none => (frames relocation removed (some ⟨old, new⟩) rest).within (moved.value :: ·)

/-- The tables inside an attribute of the body. -/
def attributeContent (relocation : Relocation) (removed : Std.TreeSet Nat) :
    AttributeContent → Attempt Fault AttributeContent
  | .lineNumbers rows => (Attempt.each relocation.lineNumber rows).within .lineNumbers
  | .localVariables rows => (Attempt.each relocation.localVariable rows).within .localVariables
  | .localVariableTypes rows =>
    (Attempt.each relocation.localVariable rows).within .localVariableTypes
  | .stackMap rows => (relocation.frames removed none rows).within .stackMap
  | content => .done content

end Relocation

/-- Attributes that annotate types inside the code. -/
def annotatesTypes (attr : Attribute) : Bool :=
  match attr.content with
  | .opaqueBytes title _ =>
    title == "RuntimeVisibleTypeAnnotations" || title == "RuntimeInvisibleTypeAnnotations"
  | _ => false

/-- The sum of two stack sizes, or the largest size if that is smaller. -/
def addStack (size extra : UInt16) : UInt16 :=
  if size.toNat + extra.toNat < 65536 then size + extra else 65535

/-- Puts `instructions` in the place of the code of `body`, with room for `extraStack` more
values on the stack. -/
def relocateBody (body : MethodBody) (instructions : List Instruction)
    (removed : Std.TreeSet Nat) (extraStack : UInt16) : Attempt Fault MethodBody :=
  match assemble instructions body.code.length with
  | .error fault => ⟨body, some fault⟩
  | .ok (code, relocation) =>
    (((Attempt.each relocation.handler body.handlers).within fun handlers ↦
        { body with handlers }).andThen
      fun body ↦
        (Attempt.each
          (fun attr ↦ (relocation.attributeContent removed attr.content).within
            fun content ↦ { attr with content })
          (body.attributes.filter (!annotatesTypes ·))).within
        fun attributes ↦ { body with attributes }).andThen
      fun body ↦ .done { body with code, maxStack := addStack body.maxStack extraStack }

end ClassWeaver.Code
