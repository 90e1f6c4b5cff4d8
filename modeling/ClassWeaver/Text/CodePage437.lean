import ClassWeaver.Bytes

/-!
Code page 437, an encoding with one byte per character.

Its lower half is ASCII. Every sequence of bytes is a text.
-/

set_option autoImplicit false
set_option relaxedAutoImplicit false

namespace ClassWeaver.Text.CodePage437

/-- The characters of the bytes from 128 on. -/
def upperHalf : Array Char :=
  ("ÇüéâäàåçêëèïîìÄÅÉæÆôöòûùÿÖÜ¢£¥₧ƒ" ++
    "áíóúñÑªº¿⌐¬½¼¡«»░▒▓│┤╡╢╖╕╣║╗╝╜╛┐" ++
    "└┴┬├─┼╞╟╚╔╩╦╠═╬╧╨╤╥╙╘╒╓╫╪┘┌█▄▌▐▀" ++
    "αßΓπΣσµτΦΘΩδ∞φε∩≡±≥≤⌠⌡÷≈°∙·√ⁿ²■\u00A0").toList.toArray

def decodeByte (byte : UInt8) : Char :=
  if byte.toNat < 128 then Char.ofNat byte.toNat
  else (upperHalf[byte.toNat - 128]?).getD '\uFFFD'

def decode (bytes : Bytes) : String :=
  String.ofList (bytes.map decodeByte)

end ClassWeaver.Text.CodePage437
