/-!
Stack map frames: the types that the verifier expects at chosen offsets of a method body.

The offset of a frame is written as a difference. That of the first frame counts from the start
of the code, and that of every other frame from the byte behind the frame before it.
-/

set_option autoImplicit false
set_option relaxedAutoImplicit false

namespace ClassWeaver.ClassFile

inductive VerificationType where
  | top
  | integer
  | float
  | double
  | long
  | null
  | uninitializedThis
  | object (classIndex : UInt16)
  /-- The value of the allocation at `offset`, before its constructor has run. -/
  | uninitialized (offset : UInt16)
  deriving DecidableEq, Repr

inductive StackMapFrame where
  | same (delta : UInt16)
  | sameLocals1 (delta : UInt16) (stack : VerificationType)
  | sameLocals1Extended (delta : UInt16) (stack : VerificationType)
  /-- Drops the last `count` locals. -/
  | chop (delta : UInt16) (count : UInt8)
  | sameExtended (delta : UInt16)
  | append (delta : UInt16) (locals : List VerificationType)
  | full (delta : UInt16) (locals stack : List VerificationType)
  deriving DecidableEq, Repr

namespace StackMapFrame

def delta : StackMapFrame → UInt16
  | same delta | sameLocals1 delta _ | sameLocals1Extended delta _ | chop delta _
  | sameExtended delta | append delta _ | full delta _ _ => delta

def setDelta (delta : UInt16) : StackMapFrame → StackMapFrame
  | same _ => same delta
  | sameLocals1 _ stack => sameLocals1 delta stack
  | sameLocals1Extended _ stack => sameLocals1Extended delta stack
  | chop _ count => chop delta count
  | sameExtended _ => sameExtended delta
  | append _ locals => append delta locals
  | full _ locals stack => full delta locals stack

/-- The types that a frame mentions, locals first. -/
def types : StackMapFrame → List VerificationType
  | sameLocals1 _ stack | sameLocals1Extended _ stack => [stack]
  | append _ locals => locals
  | full _ locals stack => locals ++ stack
  | same _ | chop _ _ | sameExtended _ => []

/-- Puts other types in the place of the ones that a frame mentions, in the same order. -/
def setTypes : StackMapFrame → List VerificationType → StackMapFrame
  | sameLocals1 delta stack, types => sameLocals1 delta (types.headD stack)
  | sameLocals1Extended delta stack, types => sameLocals1Extended delta (types.headD stack)
  | append delta _, types => append delta types
  | full delta locals _, types =>
    full delta (types.take locals.length) (types.drop locals.length)
  | frame, _ => frame

end StackMapFrame

end ClassWeaver.ClassFile
