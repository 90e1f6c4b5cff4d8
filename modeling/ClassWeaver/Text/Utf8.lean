import ClassWeaver.Bytes

/-!
UTF-8, the encoding of texts in memory.

`pieces` splits any bytes into the characters that they spell and the broken pieces between them.
A broken piece is as long as it could still begin a character, and at least one byte. A text is
read strictly with `decode?`, which refuses broken pieces, or with `decodeLossy`, which puts the
replacement character in the place of each.
-/

set_option autoImplicit false
set_option relaxedAutoImplicit false

namespace ClassWeaver.Text.Utf8

def encode (text : String) : Bytes :=
  text.toList.flatMap String.utf8EncodeChar

/-- What a leading byte says: how many bytes follow it, the bounds of the first of them, and the
bits of the character in the leading byte itself. -/
structure Lead where
  count : Nat
  low : Nat
  high : Nat
  bits : Nat
  deriving DecidableEq, Repr

/-- The bounds keep overlong forms, surrogates and numbers beyond the last character out. -/
def lead? (byte : UInt8) : Option Lead :=
  let value := byte.toNat
  if value ≤ 0x7F then some ⟨0, 0x80, 0xBF, value⟩
  else if 0xC2 ≤ value ∧ value ≤ 0xDF then some ⟨1, 0x80, 0xBF, value % 32⟩
  else if value = 0xE0 then some ⟨2, 0xA0, 0xBF, value % 16⟩
  else if value = 0xED then some ⟨2, 0x80, 0x9F, value % 16⟩
  else if 0xE1 ≤ value ∧ value ≤ 0xEF then some ⟨2, 0x80, 0xBF, value % 16⟩
  else if value = 0xF0 then some ⟨3, 0x90, 0xBF, value % 8⟩
  else if value = 0xF4 then some ⟨3, 0x80, 0x8F, value % 8⟩
  else if 0xF1 ≤ value ∧ value ≤ 0xF3 then some ⟨3, 0x80, 0xBF, value % 8⟩
  else none

/-- Reads the bytes that follow a leading byte. The answer is the number of the character, unless
one of them is missing or out of its bounds, and the bytes that were not read. -/
def follow : (count low high bits : Nat) → Bytes → Option Nat × Bytes
  | 0, _, _, bits, bytes => (some bits, bytes)
  | _ + 1, _, _, _, [] => (none, [])
  | count + 1, low, high, bits, byte :: rest =>
    if low ≤ byte.toNat ∧ byte.toNat ≤ high then
      follow count 0x80 0xBF (bits * 64 + byte.toNat % 64) rest
    else (none, byte :: rest)

/-- The character, or the broken piece, that starts with `byte`. -/
def next (byte : UInt8) (rest : Bytes) : Option Char × Bytes :=
  match lead? byte with
  | none => (none, rest)
  | some lead =>
    let (number, rest) := follow lead.count lead.low lead.high lead.bits rest
    (number.map Char.ofNat, rest)

theorem length_follow_le (count low high bits : Nat) (bytes : Bytes) :
    (follow count low high bits bytes).2.length ≤ bytes.length := by
  induction bytes generalizing count low high bits with
  | nil => cases count <;> simp [follow]
  | cons byte rest ih =>
    cases count with
    | zero => simp [follow]
    | succ count =>
      simp only [follow]
      split
      · exact Nat.le_succ_of_le (ih ..)
      · exact Nat.le_refl _

theorem length_next_le (byte : UInt8) (rest : Bytes) : (next byte rest).2.length ≤ rest.length := by
  unfold next
  split
  · exact Nat.le_refl _
  · exact length_follow_le ..

/-- The characters that bytes spell; none stands for a broken piece. -/
def pieces : Bytes → List (Option Char)
  | [] => []
  | byte :: rest => (next byte rest).1 :: pieces (next byte rest).2
  termination_by bytes => bytes.length
  decreasing_by exact Nat.lt_succ_of_le (length_next_le byte rest)

/-- The text that bytes spell, unless there is a broken piece. -/
def decode? (bytes : Bytes) : Option String :=
  ((pieces bytes).mapM id).map String.ofList

/-- The text that bytes spell, with `U+FFFD` for every broken piece. -/
def decodeLossy (bytes : Bytes) : String :=
  String.ofList ((pieces bytes).map (·.getD '\uFFFD'))

/-- The bytes in front of the first zero, which ends a text in memory. -/
def untilZero (bytes : Bytes) : Bytes :=
  bytes.takeWhile (· ≠ 0)

end ClassWeaver.Text.Utf8
