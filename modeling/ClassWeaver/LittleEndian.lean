import ClassWeaver.Bytes

/-!
Numbers as bytes, the least significant byte first.
-/

set_option autoImplicit false
set_option relaxedAutoImplicit false

namespace ClassWeaver.LittleEndian

/-- The lowest `width` bytes of a number. -/
def bytes : (width value : Nat) → Bytes
  | 0, _ => []
  | width + 1, value => UInt8.ofNat value :: bytes width (value / 256)

/-- The number that bytes spell. -/
def value : Bytes → Nat
  | [] => 0
  | byte :: rest => byte.toNat + 256 * value rest

/-- The number in the next `width` bytes. -/
def number (width : Nat) : Parser Unreadable Nat := do
  return value (← Parser.take ⟨⟩ width)

end ClassWeaver.LittleEndian
