import ClassWeaver.Bytes

/-!
The checksum of an archive's entry, the CRC-32 of its content.

The bits of the content, each byte from its lowest bit on, are divided by a polynomial. The
remainder starts with all bits set and is inverted at the end.
-/

set_option autoImplicit false
set_option relaxedAutoImplicit false

namespace ClassWeaver.Archive.Checksum

/-- The divisor, with its highest power in the lowest bit. -/
def polynomial : UInt32 :=
  0xEDB88320

/-- Divides by one more bit. -/
def shift (remainder : UInt32) : UInt32 :=
  if remainder &&& 1 = 1 then remainder >>> 1 ^^^ polynomial else remainder >>> 1

def shifts : Nat → UInt32 → UInt32
  | 0, remainder => remainder
  | count + 1, remainder => shifts count (shift remainder)

/-- Divides by the bits of one more byte. -/
def step (remainder : UInt32) (byte : UInt8) : UInt32 :=
  shifts 8 (remainder ^^^ byte.toUInt32)

def ofBytes (bytes : Bytes) : UInt32 :=
  ~~~(bytes.foldl step 0xFFFFFFFF)

end ClassWeaver.Archive.Checksum
