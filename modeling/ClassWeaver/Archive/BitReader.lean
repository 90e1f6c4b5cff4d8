import ClassWeaver.Bytes

/-!
Reading bits out of bytes, each byte from its lowest bit on.

Whole bytes are read with `aligned`, which skips what is left of the byte that was begun.
-/

set_option autoImplicit false
set_option relaxedAutoImplicit false

namespace ClassWeaver.Archive

structure BitReader where
  /-- The bits that are left of the byte that was begun. -/
  bits : List Bool
  /-- The bytes that were not begun. -/
  bytes : Bytes
  deriving Repr

/-- A parser takes its value off the front of the bits, or fails. -/
abbrev BitParser (α : Type) := StateT BitReader (Except Unreadable) α

namespace BitReader

def ofBytes (bytes : Bytes) : BitReader :=
  ⟨[], bytes⟩

/-- The number of bits that are left. -/
def size (reader : BitReader) : Nat :=
  reader.bits.length + 8 * reader.bytes.length

/-- The bits of a byte above its lowest one. -/
def higherBits (byte : UInt8) : List Bool :=
  (List.range 7).map fun i ↦ byte.toNat.testBit (i + 1)

/-- The next bit. -/
def bit : BitParser Bool := fun reader ↦
  match reader.bits, reader.bytes with
  | bit :: bits, bytes => .ok (bit, ⟨bits, bytes⟩)
  | [], byte :: bytes => .ok (byte.toNat.testBit 0, ⟨higherBits byte, bytes⟩)
  | [], [] => .error ⟨⟩

/-- The number in the next `width` bits, the lowest one first. -/
def number : (width : Nat) → BitParser Nat
  | 0 => return 0
  | width + 1 => do
    let low ← bit
    let high ← number width
    return low.toNat + 2 * high

/-- Runs a parser of bytes at the next whole byte. -/
def aligned {α : Type} (parser : Parser Unreadable α) : BitParser α := fun reader ↦ do
  let (value, bytes) ← parser reader.bytes
  return (value, ofBytes bytes)

end BitReader

end ClassWeaver.Archive
