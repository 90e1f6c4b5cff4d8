/-!
Blank characters, and trimming them off both ends of a text.

The blank characters are those with the Unicode property White_Space.
-/

set_option autoImplicit false
set_option relaxedAutoImplicit false

namespace ClassWeaver.Text

/-- The code points with the property White_Space, as inclusive ranges. -/
def blankRanges : List (Nat × Nat) :=
  [(0x09, 0x0D), (0x20, 0x20), (0x85, 0x85), (0xA0, 0xA0), (0x1680, 0x1680), (0x2000, 0x200A),
    (0x2028, 0x2029), (0x202F, 0x202F), (0x205F, 0x205F), (0x3000, 0x3000)]

def isBlank (c : Char) : Bool :=
  blankRanges.any fun (first, last) ↦ first ≤ c.toNat && c.toNat ≤ last

/-- Leaves out the blanks at the end. -/
def trimEnd (text : List Char) : List Char :=
  (text.reverse.dropWhile isBlank).reverse

def trim (text : List Char) : List Char :=
  trimEnd (text.dropWhile isBlank)

end ClassWeaver.Text
