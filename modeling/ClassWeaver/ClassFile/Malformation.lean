/-!
What can be wrong with the bytes of a class, or with an index into its constant pool.
-/

set_option autoImplicit false
set_option relaxedAutoImplicit false

namespace ClassWeaver.ClassFile

inductive Malformation where
  /-- The data end inside an item. -/
  | unexpectedEnd
  | invalidMagic (magic : UInt32)
  /-- The pool has no entry of the wanted kind at this index. -/
  | invalidIndex (index : UInt16)
  | invalidTag (tag : UInt8)
  | invalidText
  /-- An attribute, named by `what`, has a body that its format does not allow. -/
  | invalidAttribute (what : String)
  | poolOverflow
  | trailingBytes (count : Nat)
  deriving DecidableEq, Repr

/-- Lower-case hexadecimal digits, without leading zeros. -/
def hexadecimal (value : Nat) : String :=
  String.ofList (Nat.toDigits 16 value)

def Malformation.message : Malformation → String
  | unexpectedEnd => "unexpected end of class data"
  | invalidMagic magic => "invalid magic: 0x" ++ hexadecimal magic.toNat
  | invalidIndex index => "invalid constant pool index: " ++ toString index.toNat
  | invalidTag tag => "invalid constant pool tag: " ++ toString tag.toNat
  | invalidText => "invalid modified UTF-8 in constant pool"
  | invalidAttribute what => "invalid attribute: " ++ what
  | poolOverflow => "constant pool is full"
  | trailingBytes count => toString count ++ " trailing bytes after class data"

end ClassWeaver.ClassFile
