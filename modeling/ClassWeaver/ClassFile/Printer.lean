import ClassWeaver.ClassFile.Basic
import ClassWeaver.Text.ModifiedUtf8

/-!
Writing a class file as bytes.

Every count and every length is written in front of what it counts, modulo the width of its
field. A stack map frame keeps its compact form unless its offset has outgrown it.
-/

set_option autoImplicit false
set_option relaxedAutoImplicit false

namespace ClassWeaver.ClassFile

/-- The first four bytes of every class file. -/
def magic : UInt32 :=
  0xCAFEBABE

/-- The number of items, in two bytes, and then the items. -/
def countedBytes {α : Type} (item : α → Bytes) (items : List α) : Bytes :=
  bytes16 (UInt16.ofNat items.length) ++ items.flatMap item

/-! ### The constant pool -/

def Constant.bytes : Constant → Bytes
  | .utf8 text =>
    let encoded := Text.ModifiedUtf8.encode text
    1 :: bytes16 (UInt16.ofNat encoded.length) ++ encoded
  | .integer value => 3 :: bytes32 value.toUInt32
  | .float bits => 4 :: bytes32 bits
  | .long value => 5 :: bytes64 value.toUInt64
  | .double bits => 6 :: bytes64 bits
  | .classRef name => 7 :: bytes16 name
  | .string text => 8 :: bytes16 text
  | .fieldRef owner member => 9 :: bytes16 owner ++ bytes16 member
  | .methodRef owner member => 10 :: bytes16 owner ++ bytes16 member
  | .interfaceMethodRef owner member => 11 :: bytes16 owner ++ bytes16 member
  | .nameAndType name descriptor => 12 :: bytes16 name ++ bytes16 descriptor
  | .methodHandle kind reference => 15 :: kind :: bytes16 reference
  | .methodType descriptor => 16 :: bytes16 descriptor
  | .dynamic bootstrap member => 17 :: bytes16 bootstrap ++ bytes16 member
  | .invokeDynamic bootstrap member => 18 :: bytes16 bootstrap ++ bytes16 member
  | .moduleRef name => 19 :: bytes16 name
  | .packageRef name => 20 :: bytes16 name

def ConstantPool.bytes (pool : ConstantPool) : Bytes :=
  bytes16 pool.count ++ (pool.slots.toList.filterMap id).flatMap Constant.bytes

/-! ### Stack maps -/

def VerificationType.bytes : VerificationType → Bytes
  | top => [0]
  | integer => [1]
  | float => [2]
  | double => [3]
  | long => [4]
  | null => [5]
  | uninitializedThis => [6]
  | object classIndex => 7 :: bytes16 classIndex
  | uninitialized offset => 8 :: bytes16 offset

/-- The largest offset that fits into the compact forms. -/
def compactDelta : UInt16 :=
  63

def StackMapFrame.bytes : StackMapFrame → Bytes
  | same delta => if delta ≤ compactDelta then [delta.toUInt8] else 251 :: bytes16 delta
  | sameExtended delta => 251 :: bytes16 delta
  | sameLocals1 delta stack =>
    if delta ≤ compactDelta then (64 + delta.toUInt8) :: stack.bytes
    else 247 :: bytes16 delta ++ stack.bytes
  | sameLocals1Extended delta stack => 247 :: bytes16 delta ++ stack.bytes
  | chop delta count => (251 - count) :: bytes16 delta
  | append delta locals =>
    (251 + UInt8.ofNat locals.length) :: bytes16 delta ++ locals.flatMap VerificationType.bytes
  | full delta locals stack =>
    255 :: bytes16 delta ++ countedBytes VerificationType.bytes locals ++
      countedBytes VerificationType.bytes stack

/-! ### Attributes -/

def ExceptionHandler.bytes (row : ExceptionHandler) : Bytes :=
  bytes16 row.start ++ bytes16 row.stop ++ bytes16 row.handler ++ bytes16 row.catchType

def LineNumber.bytes (row : LineNumber) : Bytes :=
  bytes16 row.start ++ bytes16 row.line

def LocalVariable.bytes (row : LocalVariable) : Bytes :=
  bytes16 row.start ++ bytes16 row.length ++ bytes16 row.name ++ bytes16 row.type ++
    bytes16 row.index

mutual

def Attribute.bytes : Attribute → Bytes
  | ⟨name, content⟩ =>
    let body := content.bytes
    bytes16 name ++ bytes32 (UInt32.ofNat body.length) ++ body

def AttributeContent.bytes : AttributeContent → Bytes
  | .constantValue value => bytes16 value
  | .code body => body.bytes
  | .stackMap frames => countedBytes StackMapFrame.bytes frames
  | .exceptions classes => countedBytes bytes16 classes
  | .signature text => bytes16 text
  | .sourceFile text => bytes16 text
  | .lineNumbers rows => countedBytes LineNumber.bytes rows
  | .localVariables rows => countedBytes LocalVariable.bytes rows
  | .localVariableTypes rows => countedBytes LocalVariable.bytes rows
  | .deprecated => []
  | .synthetic => []
  | .opaqueBytes _ bytes => bytes

def MethodBody.bytes : MethodBody → Bytes
  | ⟨maxStack, maxLocals, code, handlers, attributes⟩ =>
    bytes16 maxStack ++ bytes16 maxLocals ++ bytes32 (UInt32.ofNat code.length) ++ code ++
      countedBytes ExceptionHandler.bytes handlers ++
      bytes16 (UInt16.ofNat attributes.length) ++ attributesBytes attributes

/-- The attributes one after the other. -/
def attributesBytes : List Attribute → Bytes
  | [] => []
  | attr :: rest => attr.bytes ++ attributesBytes rest

end

theorem attributesBytes_eq_flatMap (attributes : List Attribute) :
    attributesBytes attributes = attributes.flatMap Attribute.bytes := by
  induction attributes with
  | nil => simp [attributesBytes]
  | cons attr rest ih => simp [attributesBytes, ih]

/-! ### Classes -/

def Member.bytes (member : Member) : Bytes :=
  bytes16 member.access ++ bytes16 member.name ++ bytes16 member.descriptor ++
    countedBytes Attribute.bytes member.attributes

/-- The class as a class file. -/
def bytes (file : ClassFile) : Bytes :=
  bytes32 magic ++ bytes16 file.minor ++ bytes16 file.major ++ file.pool.bytes ++
    bytes16 file.access ++ bytes16 file.thisClass ++ bytes16 file.superClass ++
    countedBytes bytes16 file.interfaces ++ countedBytes Member.bytes file.fields ++
    countedBytes Member.bytes file.methods ++ countedBytes Attribute.bytes file.attributes

end ClassWeaver.ClassFile
