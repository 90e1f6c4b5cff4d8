import ClassWeaver.Bytes
import ClassWeaver.Text.Utf16

/-!
Modified UTF-8, the encoding of strings in class files.

Each 16-bit unit of a text becomes a group of one, two or three bytes: the unit zero takes two
bytes, so that no encoded text holds a zero byte, and a character outside the basic plane takes
the six bytes of its two surrogates. Decoding accepts any sequence of such groups, overlong ones
included, and refuses everything else.
-/

set_option autoImplicit false
set_option relaxedAutoImplicit false

namespace ClassWeaver.Text.ModifiedUtf8

/-- The group of bytes for one unit. -/
def encodeUnit (unit : UInt16) : Bytes :=
  let value := unit.toNat
  if 1 ≤ value ∧ value ≤ 0x7F then [UInt8.ofNat value]
  else if value ≤ 0x7FF then [UInt8.ofNat (0xC0 + value / 64), UInt8.ofNat (0x80 + value % 64)]
  else
    [UInt8.ofNat (0xE0 + value / 4096), UInt8.ofNat (0x80 + value / 64 % 64),
      UInt8.ofNat (0x80 + value % 64)]

def encodeUnits (text : List UInt16) : Bytes :=
  text.flatMap encodeUnit

def encode (text : String) : Bytes :=
  encodeUnits (utf16 text.toList)

/-- Continuation bytes are `10xxxxxx`. -/
def isContinuation (byte : UInt8) : Bool :=
  0x80 ≤ byte.toNat && byte.toNat < 0xC0

/-- The unit of the two-byte group `110xxxxx 10xxxxxx`. -/
def unitOfTwo (a b : UInt8) : UInt16 :=
  UInt16.ofNat (a.toNat % 32 * 64 + b.toNat % 64)

/-- The unit of the three-byte group `1110xxxx 10xxxxxx 10xxxxxx`. -/
def unitOfThree (a b c : UInt8) : UInt16 :=
  UInt16.ofNat (a.toNat % 16 * 4096 + b.toNat % 64 * 64 + c.toNat % 64)

def decodeUnits : Bytes → Option (List UInt16)
  | [] => some []
  | a :: rest =>
    if 0x01 ≤ a.toNat ∧ a.toNat ≤ 0x7F then
      (decodeUnits rest).map (a.toUInt16 :: ·)
    else if 0xC0 ≤ a.toNat ∧ a.toNat ≤ 0xDF then
      match rest with
      | b :: rest =>
        if isContinuation b then (decodeUnits rest).map (unitOfTwo a b :: ·) else none
      | [] => none
    else if 0xE0 ≤ a.toNat ∧ a.toNat ≤ 0xEF then
      match rest with
      | b :: c :: rest =>
        if isContinuation b && isContinuation c then
          (decodeUnits rest).map (unitOfThree a b c :: ·)
        else none
      | _ => none
    else none

/-- The text that `bytes` spell, unless they are no sequence of groups. -/
def decode (bytes : Bytes) : Option String :=
  (decodeUnits bytes).map fun text ↦ String.ofList (ofUtf16 text)

end ClassWeaver.Text.ModifiedUtf8
