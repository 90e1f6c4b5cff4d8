import ClassWeaver.Bytes
import ClassWeaver.ClassFile.ConstantPool
import ClassWeaver.ClassFile.StackMap

/-!
Class files.

A class is its versions, constant pool, flags, the indices of itself and its supertypes, its
members and its attributes. Attributes that the weaver has no use for keep their bytes. A method
body is itself an attribute and has attributes of its own.
-/

set_option autoImplicit false
set_option relaxedAutoImplicit false

namespace ClassWeaver.ClassFile

/-- The code from `start` up to `stop` is guarded by the handler. -/
structure ExceptionHandler where
  start : UInt16
  stop : UInt16
  handler : UInt16
  catchType : UInt16
  deriving DecidableEq, Repr

structure LineNumber where
  start : UInt16
  line : UInt16
  deriving DecidableEq, Repr

/-- A row of either table of local variables; `type` names a descriptor in the one and a
signature in the other. -/
structure LocalVariable where
  start : UInt16
  length : UInt16
  name : UInt16
  type : UInt16
  index : UInt16
  deriving DecidableEq, Repr

mutual

/-- An attribute and the pool index of its name. -/
structure Attribute where
  name : UInt16
  content : AttributeContent

inductive AttributeContent where
  | constantValue (value : UInt16)
  | code (body : MethodBody)
  | stackMap (frames : List StackMapFrame)
  | exceptions (classes : List UInt16)
  | signature (text : UInt16)
  | sourceFile (text : UInt16)
  | lineNumbers (rows : List LineNumber)
  | localVariables (rows : List LocalVariable)
  | localVariableTypes (rows : List LocalVariable)
  | deprecated
  | synthetic
  /-- An attribute under any other name, with its bytes. -/
  | opaqueBytes (title : String) (bytes : Bytes)

structure MethodBody where
  maxStack : UInt16
  maxLocals : UInt16
  code : Bytes
  handlers : List ExceptionHandler
  attributes : List Attribute

end

/-- A field or a method. -/
structure Member where
  access : UInt16
  name : UInt16
  descriptor : UInt16
  attributes : List Attribute

end ClassFile

structure ClassFile where
  minor : UInt16
  major : UInt16
  pool : ClassFile.ConstantPool
  access : UInt16
  thisClass : UInt16
  superClass : UInt16
  interfaces : List UInt16
  fields : List ClassFile.Member
  methods : List ClassFile.Member
  attributes : List ClassFile.Attribute

namespace ClassFile

/-- The body that an attribute holds. -/
def Attribute.body? (attr : Attribute) : Option MethodBody :=
  match attr.content with
  | .code body => some body
  | _ => none

/-- Puts `body` in the place of the first method body among the attributes. -/
def replaceBody (body : MethodBody) : List Attribute → List Attribute
  | [] => []
  | attr :: rest =>
    if attr.body?.isSome then { attr with content := .code body } :: rest
    else attr :: replaceBody body rest

namespace Member

def nameText (member : Member) (pool : ConstantPool) : Except Malformation String :=
  pool.text member.name

def descriptorText (member : Member) (pool : ConstantPool) : Except Malformation String :=
  pool.text member.descriptor

/-- The first method body among the attributes. -/
def body? (member : Member) : Option MethodBody :=
  member.attributes.findSome? Attribute.body?

def setBody (member : Member) (body : MethodBody) : Member :=
  { member with attributes := replaceBody body member.attributes }

end Member

/-- The name that the class gives itself, with slashes between its parts. -/
def thisName (file : ClassFile) : Except Malformation String :=
  file.pool.className file.thisClass

/-- Whether `member` has this name and, where one is given, this descriptor. -/
def Member.isNamed (member : Member) (pool : ConstantPool) (name : String)
    (descriptor : Option String) : Bool :=
  (member.nameText pool).toOption == some name &&
    match descriptor with
    | none => true
    | some descriptor => (member.descriptorText pool).toOption == some descriptor

/-- The number of the first method of that name; methods whose name leads nowhere are passed
over. -/
def findMethod? (file : ClassFile) (name : String) (descriptor : Option String) : Option Nat :=
  file.methods.findIdx? (·.isNamed file.pool name descriptor)

end ClassFile

end ClassWeaver
