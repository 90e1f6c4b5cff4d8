import ClassWeaver.Archive.BitReader

/-!
Prefix codes that are given by the lengths of their words.

The words of a length are consecutive numbers, in the order of their symbols, and the first of
them follows the last word of the length before. A word stands in the bits with its highest bit
first. So a code is known from the symbols of each length, and a word is decoded by counting how
far it is behind the words of its length that came before.
-/

set_option autoImplicit false
set_option relaxedAutoImplicit false

namespace ClassWeaver.Archive

/-- The symbols whose words have one bit, those whose words have two bits, and so on. -/
abbrev PrefixCode := List (Array Nat)

namespace PrefixCode

/-- The greatest length of a word. -/
def maxLength : Nat :=
  15

/-- The code in which the symbols `0`, `1`, … have words of the given lengths. A symbol with
length zero has no word. -/
def ofLengths (lengths : List Nat) : PrefixCode :=
  (List.range maxLength).map fun below ↦
    (lengths.zipIdx.filterMap fun (length, symbol) ↦
      if length = below + 1 then some symbol else none).toArray

/-- The number of symbols that have a word. -/
def size (code : PrefixCode) : Nat :=
  code.foldr (fun symbols count ↦ symbols.size + count) 0

/-- How many of the longest words are free if `free` words are before the first bit; none if
there are more symbols than words. -/
def unused (free : Nat) : PrefixCode → Option Nat
  | [] => some free
  | symbols :: longer =>
    if symbols.size ≤ 2 * free then unused (2 * free - symbols.size) longer else none

/-- Whether every sequence of bits starts with a word, if it is long enough. -/
def isComplete (code : PrefixCode) : Bool :=
  unused 1 code == some 0

/-- Whether bits can be decoded. A code that is not complete may have one word of one bit, and no
other. -/
def isUsable (code : PrefixCode) : Bool :=
  code.isComplete || (code.size ≤ 1 && size code.tail == 0)

/-- Reads the rest of a word. What was read of it is `offset` behind the first word that is left
for the lengths in `code`. -/
def decodeFrom (offset : Nat) : PrefixCode → BitParser Nat
  | [] => throw ⟨⟩
  | symbols :: longer => do
    let offset := 2 * offset + (← BitReader.bit).toNat
    match symbols[offset]? with
    | some symbol => return symbol
    | none => decodeFrom (offset - symbols.size) longer

/-- The symbol of the next word. -/
def decode (code : PrefixCode) : BitParser Nat :=
  decodeFrom 0 code

end PrefixCode

end ClassWeaver.Archive
