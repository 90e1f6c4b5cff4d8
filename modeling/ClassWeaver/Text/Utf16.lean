/-!
Text as a sequence of 16-bit units.

A character beyond the first 65536 is written as a high and a low surrogate. Reading pairs every
high surrogate with a low one right behind it; a surrogate that has no partner reads as U+FFFD.
-/

set_option autoImplicit false
set_option relaxedAutoImplicit false

namespace ClassWeaver.Text

/-- The units of one character. -/
def units (c : Char) : List UInt16 :=
  if c.toNat < 0x10000 then [UInt16.ofNat c.toNat]
  else
    [UInt16.ofNat (0xD800 + (c.toNat - 0x10000) / 0x400),
      UInt16.ofNat (0xDC00 + (c.toNat - 0x10000) % 0x400)]

def utf16 (text : List Char) : List UInt16 :=
  text.flatMap units

def isHighSurrogate (unit : UInt16) : Bool :=
  0xD800 ≤ unit.toNat && unit.toNat < 0xDC00

def isLowSurrogate (unit : UInt16) : Bool :=
  0xDC00 ≤ unit.toNat && unit.toNat < 0xE000

/-- The character that stands for a surrogate without a partner. -/
def replacement : Char :=
  Char.ofNat 0xFFFD

/-- The character of a unit that stands alone. -/
def loneCharacter (unit : UInt16) : Char :=
  if isHighSurrogate unit || isLowSurrogate unit then replacement else Char.ofNat unit.toNat

/-- The character of a surrogate pair. -/
def pairedCharacter (high low : UInt16) : Char :=
  Char.ofNat (0x10000 + (high.toNat - 0xD800) * 0x400 + (low.toNat - 0xDC00))

def ofUtf16 : List UInt16 → List Char
  | [] => []
  | [unit] => [loneCharacter unit]
  | unit :: next :: rest =>
    if isHighSurrogate unit && isLowSurrogate next then
      pairedCharacter unit next :: ofUtf16 rest
    else
      loneCharacter unit :: ofUtf16 (next :: rest)

end ClassWeaver.Text
