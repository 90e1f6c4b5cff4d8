import ClassWeaver.ClassFile.Printer

/-!
Class files whose bytes say all there is to them.

A class is written in fields of fixed width, and its attributes are told apart by their titles. It
is well formed if every number fits its field and every attribute has the title of its kind
(`ClassFile.WellFormed`). What is written of such a class is the class itself, but for compact stack
map frames whose offset has outgrown them: these are written in the extended form, which is what
`ClassFile.widened` puts in their place.
-/

set_option autoImplicit false
set_option relaxedAutoImplicit false

namespace ClassWeaver.ClassFile

/-- The largest number of items that a count in two bytes can tell. -/
def maxCount : Nat :=
  65535

/-! ### Frames that outgrew their form -/

/-- The form in which a frame is written. -/
def StackMapFrame.widened : StackMapFrame → StackMapFrame
  | same delta => if delta ≤ compactDelta then same delta else sameExtended delta
  | sameLocals1 delta stack =>
    if delta ≤ compactDelta then sameLocals1 delta stack else sameLocals1Extended delta stack
  | frame => frame

mutual

def Attribute.widened : Attribute → Attribute
  | ⟨name, content⟩ => ⟨name, content.widened⟩

def AttributeContent.widened : AttributeContent → AttributeContent
  | .code body => .code body.widened
  | .stackMap frames => .stackMap (frames.map StackMapFrame.widened)
  | content => content

def MethodBody.widened : MethodBody → MethodBody
  | ⟨maxStack, maxLocals, code, handlers, attributes⟩ =>
    ⟨maxStack, maxLocals, code, handlers, attributesWidened attributes⟩

/-- The attributes, each with its frames in the form in which they are written. -/
def attributesWidened : List Attribute → List Attribute
  | [] => []
  | attr :: rest => attr.widened :: attributesWidened rest

end

theorem attributesWidened_eq_map (attributes : List Attribute) :
    attributesWidened attributes = attributes.map Attribute.widened := by
  induction attributes with
  | nil => rfl
  | cons attr rest ih => rw [attributesWidened, ih, List.map_cons]

def Member.widened (member : Member) : Member :=
  { member with attributes := member.attributes.map Attribute.widened }

/-- The class with every frame in the form in which it is written. -/
def widened (file : ClassFile) : ClassFile :=
  { file with
    fields := file.fields.map Member.widened
    methods := file.methods.map Member.widened
    attributes := file.attributes.map Attribute.widened }

/-! ### Well-formed parts -/

/-- Slot zero is empty and entries fill the others, a wide entry two of them and any other one. -/
structure ConstantPool.WellFormed (pool : ConstantPool) : Prop where
  tiled : ∃ entries : List Constant, pool.slots.toList = none :: entries.flatMap Constant.slots
  size_le : pool.slots.size ≤ capacity
  texts : ∀ text, some (.utf8 text) ∈ pool.slots.toList →
    (Text.ModifiedUtf8.encode text).length ≤ maxCount

/-- Chopping and appending are about one to three locals. -/
def StackMapFrame.WellFormed : StackMapFrame → Prop
  | chop _ count => 1 ≤ count.toNat ∧ count.toNat ≤ 3
  | append _ locals => 1 ≤ locals.length ∧ locals.length ≤ 3
  | full _ locals stack => locals.length ≤ maxCount ∧ stack.length ≤ maxCount
  | _ => True

/-- The titles under which attributes have a meaning. -/
def meaningfulTitles : List String :=
  ["ConstantValue", "Code", "StackMapTable", "Exceptions", "Signature", "SourceFile",
    "LineNumberTable", "LocalVariableTable", "LocalVariableTypeTable", "Deprecated", "Synthetic"]

/-- The title of the attributes of this kind. -/
def AttributeContent.title : AttributeContent → String
  | constantValue _ => "ConstantValue"
  | code _ => "Code"
  | stackMap _ => "StackMapTable"
  | exceptions _ => "Exceptions"
  | signature _ => "Signature"
  | sourceFile _ => "SourceFile"
  | lineNumbers _ => "LineNumberTable"
  | localVariables _ => "LocalVariableTable"
  | localVariableTypes _ => "LocalVariableTypeTable"
  | deprecated => "Deprecated"
  | synthetic => "Synthetic"
  | opaqueBytes title _ => title

section

variable (pool : ConstantPool)

mutual

/-- The name leads to the title of the content, whose length fits into four bytes. -/
inductive Attribute.WellFormed : Attribute → Prop
  | intro {name : UInt16} {content : AttributeContent} (htitle : pool.text name = .ok content.title)
      (hlength : content.bytes.length < 4294967296) (hcontent : content.WellFormed) :
      Attribute.WellFormed ⟨name, content⟩

inductive AttributeContent.WellFormed : AttributeContent → Prop
  | constantValue (value : UInt16) : AttributeContent.WellFormed (.constantValue value)
  | code {body : MethodBody} (hhandlers : body.handlers.length ≤ maxCount)
      (hcount : body.attributes.length ≤ maxCount)
      (hattributes : ∀ attr ∈ body.attributes, attr.WellFormed) :
      AttributeContent.WellFormed (.code body)
  | stackMap {frames : List StackMapFrame} (hcount : frames.length ≤ maxCount)
      (hframes : ∀ frame ∈ frames, frame.WellFormed) :
      AttributeContent.WellFormed (.stackMap frames)
  | exceptions {classes : List UInt16} (hcount : classes.length ≤ maxCount) :
      AttributeContent.WellFormed (.exceptions classes)
  | signature (text : UInt16) : AttributeContent.WellFormed (.signature text)
  | sourceFile (text : UInt16) : AttributeContent.WellFormed (.sourceFile text)
  | lineNumbers {rows : List LineNumber} (hcount : rows.length ≤ maxCount) :
      AttributeContent.WellFormed (.lineNumbers rows)
  | localVariables {rows : List LocalVariable} (hcount : rows.length ≤ maxCount) :
      AttributeContent.WellFormed (.localVariables rows)
  | localVariableTypes {rows : List LocalVariable} (hcount : rows.length ≤ maxCount) :
      AttributeContent.WellFormed (.localVariableTypes rows)
  | deprecated : AttributeContent.WellFormed .deprecated
  | synthetic : AttributeContent.WellFormed .synthetic
  | opaqueBytes {title : String} {bytes : Bytes} (htitle : title ∉ meaningfulTitles) :
      AttributeContent.WellFormed (.opaqueBytes title bytes)

end

structure AttributesWellFormed (attributes : List Attribute) : Prop where
  count : attributes.length ≤ maxCount
  each : ∀ attr ∈ attributes, attr.WellFormed pool

end

/-- Every number fits its field, and every attribute can be told by its title. -/
structure WellFormed (file : ClassFile) : Prop where
  pool : file.pool.WellFormed
  interfaces : file.interfaces.length ≤ maxCount
  fields : file.fields.length ≤ maxCount
  fieldAttributes : ∀ field ∈ file.fields, AttributesWellFormed file.pool field.attributes
  methods : file.methods.length ≤ maxCount
  methodAttributes : ∀ method ∈ file.methods, AttributesWellFormed file.pool method.attributes
  attributes : AttributesWellFormed file.pool file.attributes

end ClassWeaver.ClassFile
