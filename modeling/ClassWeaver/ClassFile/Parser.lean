import ClassWeaver.ClassFile.Printer

/-!
Reading a class file from bytes.

Items are read in the order in which they are written, and the first one that cannot be read
decides the failure. The body of an attribute is read from its own bytes, all of which it has to
use. An attribute that names itself `Code` holds further attributes; `depth` bounds how deep they
nest, and the number of input bytes is always enough.
-/

set_option autoImplicit false
set_option relaxedAutoImplicit false

namespace ClassWeaver.ClassFile

abbrev Reader (α : Type) := Parser Malformation α

namespace Reader

def u1 : Reader UInt8 := Parser.u1 .unexpectedEnd
def u2 : Reader UInt16 := Parser.u2 .unexpectedEnd
def u4 : Reader UInt32 := Parser.u4 .unexpectedEnd
def u8 : Reader UInt64 := Parser.u8 .unexpectedEnd
def take (count : Nat) : Reader Bytes := Parser.take .unexpectedEnd count

/-- A number, in two bytes, and then that many items. -/
def counted {α : Type} (item : Reader α) : Reader (List α) := do
  let count ← u2
  Parser.times item count.toNat

/-! ### The constant pool -/

def constant : Reader Constant := do
  let tag ← u1
  match tag.toNat with
  | 1 =>
    let length ← u2
    let encoded ← take length.toNat
    match Text.ModifiedUtf8.decode encoded with
    | some text => return .utf8 text
    | none => throw .invalidText
  | 3 => return .integer (← u4).toInt32
  | 4 => return .float (← u4)
  | 5 => return .long (← u8).toInt64
  | 6 => return .double (← u8)
  | 7 => return .classRef (← u2)
  | 8 => return .string (← u2)
  | 9 => return .fieldRef (← u2) (← u2)
  | 10 => return .methodRef (← u2) (← u2)
  | 11 => return .interfaceMethodRef (← u2) (← u2)
  | 12 => return .nameAndType (← u2) (← u2)
  | 15 => return .methodHandle (← u1) (← u2)
  | 16 => return .methodType (← u2)
  | 17 => return .dynamic (← u2) (← u2)
  | 18 => return .invokeDynamic (← u2) (← u2)
  | 19 => return .moduleRef (← u2)
  | 20 => return .packageRef (← u2)
  | _ => throw (.invalidTag tag)

/-- Entries that fill `room` slots; none of them may reach beyond. -/
def constants (declared : UInt16) : Nat → Reader (List (Option Constant))
  | 0 => pure []
  | 1 => do
    let entry ← constant
    if entry.isWide then throw (.invalidIndex declared)
    return entry.slots
  | room + 2 => do
    let entry ← constant
    if entry.isWide then return entry.slots ++ (← constants declared room)
    else return entry.slots ++ (← constants declared (room + 1))

/-- A declared count of zero reads as the empty pool. -/
def constantPool : Reader ConstantPool := do
  let declared ← u2
  let entries ← constants declared (declared.toNat - 1)
  return ⟨(none :: entries).toArray⟩

/-! ### Stack maps -/

def verificationType : Reader VerificationType := do
  let tag ← u1
  match tag.toNat with
  | 0 => return .top
  | 1 => return .integer
  | 2 => return .float
  | 3 => return .double
  | 4 => return .long
  | 5 => return .null
  | 6 => return .uninitializedThis
  | 7 => return .object (← u2)
  | 8 => return .uninitialized (← u2)
  | _ => throw (.invalidAttribute ("verification type tag " ++ toString tag.toNat))

def stackMapFrame : Reader StackMapFrame := do
  let type ← u1
  if type ≤ 63 then return .same type.toUInt16
  else if type ≤ 127 then return .sameLocals1 (type - 64).toUInt16 (← verificationType)
  else if type ≤ 246 then
    throw (.invalidAttribute ("StackMapTable frame type " ++ toString type.toNat))
  else if type = 247 then return .sameLocals1Extended (← u2) (← verificationType)
  else if type ≤ 250 then return .chop (← u2) (251 - type)
  else if type = 251 then return .sameExtended (← u2)
  else if type ≤ 254 then
    return .append (← u2) (← Parser.times verificationType (type.toNat - 251))
  else return .full (← u2) (← counted verificationType) (← counted verificationType)

/-! ### Attributes -/

def exceptionHandler : Reader ExceptionHandler := do
  return { start := ← u2, stop := ← u2, handler := ← u2, catchType := ← u2 }

def lineNumber : Reader LineNumber := do
  return { start := ← u2, line := ← u2 }

def localVariable : Reader LocalVariable := do
  return { start := ← u2, length := ← u2, name := ← u2, type := ← u2, index := ← u2 }

/-- A method body whose attributes are read by `nested`. -/
def methodBody (nested : Reader (List Attribute)) : Reader MethodBody := do
  let maxStack ← u2
  let maxLocals ← u2
  let length ← u4
  let code ← take length.toNat
  let handlers ← counted exceptionHandler
  let attributes ← nested
  return { maxStack, maxLocals, code, handlers, attributes }

/-- The content of an attribute that is called `title`. -/
def attributeContent (nested : Reader (List Attribute)) (title : String) :
    Reader AttributeContent :=
  match title with
  | "ConstantValue" => return .constantValue (← u2)
  | "Code" => return .code (← methodBody nested)
  | "StackMapTable" => return .stackMap (← counted stackMapFrame)
  | "Exceptions" => return .exceptions (← counted u2)
  | "Signature" => return .signature (← u2)
  | "SourceFile" => return .sourceFile (← u2)
  | "LineNumberTable" => return .lineNumbers (← counted lineNumber)
  | "LocalVariableTable" => return .localVariables (← counted localVariable)
  | "LocalVariableTypeTable" => return .localVariableTypes (← counted localVariable)
  | "Deprecated" => return .deprecated
  | "Synthetic" => return .synthetic
  | _ => fun input ↦ .ok (.opaqueBytes title input, [])

/-- Reads an attribute: its name, its length and, from that many bytes, its content. -/
def oneAttribute (pool : ConstantPool) (nested : Reader (List Attribute)) : Reader Attribute := do
  let name ← u2
  let length ← u4
  let data ← take length.toNat
  let title ← pool.text name
  let (content, rest) ← attributeContent nested title data
  if rest.isEmpty then return ⟨name, content⟩
  else throw (.invalidAttribute title)

def attributes (pool : ConstantPool) : Nat → Reader (List Attribute)
  | 0 => throw .unexpectedEnd
  | depth + 1 => counted (oneAttribute pool (attributes pool depth))

/-! ### Classes -/

def member (pool : ConstantPool) (depth : Nat) : Reader Member := do
  return {
    access := ← u2
    name := ← u2
    descriptor := ← u2
    attributes := ← attributes pool depth }

def classFile (depth : Nat) : Reader ClassFile := do
  let found ← u4
  if found ≠ magic then throw (.invalidMagic found)
  let minor ← u2
  let major ← u2
  let pool ← constantPool
  let access ← u2
  let thisClass ← u2
  let superClass ← u2
  let interfaces ← counted u2
  let fields ← counted (member pool depth)
  let methods ← counted (member pool depth)
  let attributes ← attributes pool depth
  return {
    minor, major, pool, access, thisClass, superClass, interfaces, fields, methods, attributes }

end Reader

/-- The class that `input` spells out, from its first byte to its last. -/
def parse (input : Bytes) : Except Malformation ClassFile := do
  let (file, rest) ← Reader.classFile (input.length + 1) input
  if rest.isEmpty then return file
  else throw (.trailingBytes rest.length)

end ClassWeaver.ClassFile
