import ClassWeaver.ClassFile.Malformation

/-!
The constant pool of a class.

Slot zero is empty, and so is the second slot of every `long` and `double`. Entries refer to each
other by slot number. Resolving an index gives the text behind it, or says which index leads
nowhere. Interning adds an entry at the end unless an equal one is already there, so that no
index that is in use ever moves.
-/

set_option autoImplicit false
set_option relaxedAutoImplicit false

namespace ClassWeaver.ClassFile

/-- An entry; `float` and `double` hold their bits. -/
inductive Constant where
  | utf8 (text : String)
  | integer (value : Int32)
  | float (bits : UInt32)
  | long (value : Int64)
  | double (bits : UInt64)
  | classRef (name : UInt16)
  | string (text : UInt16)
  | fieldRef (owner nameAndType : UInt16)
  | methodRef (owner nameAndType : UInt16)
  | interfaceMethodRef (owner nameAndType : UInt16)
  | nameAndType (name descriptor : UInt16)
  | methodHandle (kind : UInt8) (reference : UInt16)
  | methodType (descriptor : UInt16)
  | dynamic (bootstrap nameAndType : UInt16)
  | invokeDynamic (bootstrap nameAndType : UInt16)
  | moduleRef (name : UInt16)
  | packageRef (name : UInt16)
  deriving DecidableEq, Repr

/-- Entries that take two slots. -/
def Constant.isWide : Constant → Bool
  | .long _ | .double _ => true
  | _ => false

/-- The slots that an entry takes up. -/
def Constant.slots (entry : Constant) : List (Option Constant) :=
  if entry.isWide then [some entry, none] else [some entry]

structure ConstantPool where
  slots : Array (Option Constant)
  deriving DecidableEq, Repr

/-- A field or method named by its class, name and descriptor. -/
structure MemberRef where
  owner : String
  name : String
  descriptor : String
  deriving DecidableEq, Repr

namespace ConstantPool

def empty : ConstantPool :=
  ⟨#[none]⟩

/-- The largest number of slots. -/
def capacity : Nat :=
  65535

/-- The number of slots, as it is written in a class file. -/
def count (pool : ConstantPool) : UInt16 :=
  UInt16.ofNat pool.slots.size

/-! ### Resolving -/

/-- The entry in slot `index`. -/
def entryAt (pool : ConstantPool) (index : UInt16) : Except Malformation Constant :=
  match pool.slots[index.toNat]? with
  | some (some entry) => if index = 0 then .error (.invalidIndex index) else .ok entry
  | _ => .error (.invalidIndex index)

def text (pool : ConstantPool) (index : UInt16) : Except Malformation String := do
  match ← pool.entryAt index with
  | .utf8 text => return text
  | _ => throw (.invalidIndex index)

def className (pool : ConstantPool) (index : UInt16) : Except Malformation String := do
  match ← pool.entryAt index with
  | .classRef name => pool.text name
  | _ => throw (.invalidIndex index)

/-- The name and the descriptor. -/
def nameAndType (pool : ConstantPool) (index : UInt16) :
    Except Malformation (String × String) := do
  match ← pool.entryAt index with
  | .nameAndType name descriptor => return (← pool.text name, ← pool.text descriptor)
  | _ => throw (.invalidIndex index)

/-- The member behind a field or method reference; its name and type are resolved before its
class. -/
def memberRef (pool : ConstantPool) (index : UInt16) : Except Malformation MemberRef := do
  match ← pool.entryAt index with
  | .fieldRef owner nameAndType | .methodRef owner nameAndType
  | .interfaceMethodRef owner nameAndType =>
    let (name, descriptor) ← pool.nameAndType nameAndType
    return { owner := ← pool.className owner, name, descriptor }
  | _ => throw (.invalidIndex index)

/-! ### Interning -/

/-- The first slot with an entry equal to `entry`. -/
def find? (pool : ConstantPool) (entry : Constant) : Option UInt16 :=
  (pool.slots.findIdx? (· == some entry)).map UInt16.ofNat

/-- Adds `entry` at the end. -/
def push (pool : ConstantPool) (entry : Constant) : ConstantPool :=
  ⟨pool.slots ++ entry.slots⟩

/-- A change of the pool that may fail; what was added before a failure stays. -/
abbrev Edit (α : Type) := ExceptT Malformation (StateM ConstantPool) α

/-- The index of `entry`, which is added unless it is there. -/
def intern (entry : Constant) : Edit UInt16 := do
  let pool ← get
  match pool.find? entry with
  | some index => return index
  | none =>
    if capacity < pool.slots.size + entry.slots.length then throw .poolOverflow
    set (pool.push entry)
    return UInt16.ofNat pool.slots.size

def addText (text : String) : Edit UInt16 :=
  intern (.utf8 text)

def addInteger (value : Int32) : Edit UInt16 :=
  intern (.integer value)

def addClass (name : String) : Edit UInt16 := do
  intern (.classRef (← addText name))

def addNameAndType (name descriptor : String) : Edit UInt16 := do
  let name ← addText name
  let descriptor ← addText descriptor
  intern (.nameAndType name descriptor)

def addFieldRef (member : MemberRef) : Edit UInt16 := do
  let owner ← addClass member.owner
  let nameAndType ← addNameAndType member.name member.descriptor
  intern (.fieldRef owner nameAndType)

def addMethodRef (member : MemberRef) : Edit UInt16 := do
  let owner ← addClass member.owner
  let nameAndType ← addNameAndType member.name member.descriptor
  intern (.methodRef owner nameAndType)

end ConstantPool

end ClassWeaver.ClassFile
