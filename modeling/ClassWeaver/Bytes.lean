/-!
Byte strings and the big-endian words in them.

`bytes16`, `bytes32` and `bytes64` write a word, and `Parser.u1` to `Parser.u8` read one back.
A parser consumes a prefix of its input or fails; `Parser.times` repeats one a fixed number of
times. Reading a word that was just written gives the word and the rest of the input.
-/

set_option autoImplicit false
set_option relaxedAutoImplicit false

namespace ClassWeaver

abbrev Bytes := List UInt8

/-! ### Words -/

def bytes16 (word : UInt16) : Bytes :=
  [UInt8.ofNat (word.toNat / 256), UInt8.ofNat word.toNat]

def bytes32 (word : UInt32) : Bytes :=
  [UInt8.ofNat (word.toNat / 16777216), UInt8.ofNat (word.toNat / 65536),
    UInt8.ofNat (word.toNat / 256), UInt8.ofNat word.toNat]

def bytes64 (word : UInt64) : Bytes :=
  bytes32 (UInt32.ofNat (word.toNat / 4294967296)) ++ bytes32 (UInt32.ofNat word.toNat)

def word16 (a b : UInt8) : UInt16 :=
  UInt16.ofNat (a.toNat * 256 + b.toNat)

def word32 (a b c d : UInt8) : UInt32 :=
  UInt32.ofNat (((a.toNat * 256 + b.toNat) * 256 + c.toNat) * 256 + d.toNat)

def word64 (high low : UInt32) : UInt64 :=
  UInt64.ofNat (high.toNat * 4294967296 + low.toNat)

@[simp] theorem length_bytes16 (word : UInt16) : (bytes16 word).length = 2 := rfl

@[simp] theorem length_bytes32 (word : UInt32) : (bytes32 word).length = 4 := rfl

theorem word16_bytes16 (word : UInt16) :
    word16 (UInt8.ofNat (word.toNat / 256)) (UInt8.ofNat word.toNat) = word := by
  have hlt := word.toNat_lt
  apply UInt16.toNat_inj.1
  simp only [word16, UInt8.toNat_ofNat', UInt16.toNat_ofNat']
  omega

theorem word32_bytes32 (word : UInt32) :
    word32 (UInt8.ofNat (word.toNat / 16777216)) (UInt8.ofNat (word.toNat / 65536))
      (UInt8.ofNat (word.toNat / 256)) (UInt8.ofNat word.toNat) = word := by
  have hlt := word.toNat_lt
  apply UInt32.toNat_inj.1
  simp only [word32, UInt8.toNat_ofNat', UInt32.toNat_ofNat']
  omega

theorem word64_halves (word : UInt64) :
    word64 (UInt32.ofNat (word.toNat / 4294967296)) (UInt32.ofNat word.toNat) = word := by
  have hlt := word.toNat_lt
  apply UInt64.toNat_inj.1
  simp only [word64, UInt32.toNat_ofNat', UInt64.toNat_ofNat']
  omega

theorem bytes16_word16 (a b : UInt8) : bytes16 (word16 a b) = [a, b] := by
  have ha := a.toNat_lt
  have hb := b.toNat_lt
  simp only [bytes16, word16, UInt16.toNat_ofNat', List.cons.injEq, and_true]
  constructor <;> apply UInt8.toNat_inj.1 <;> simp only [UInt8.toNat_ofNat'] <;> omega

theorem bytes32_word32 (a b c d : UInt8) : bytes32 (word32 a b c d) = [a, b, c, d] := by
  have ha := a.toNat_lt
  have hb := b.toNat_lt
  have hc := c.toNat_lt
  have hd := d.toNat_lt
  simp only [bytes32, word32, UInt32.toNat_ofNat', List.cons.injEq, and_true]
  refine ⟨?_, ?_, ?_, ?_⟩ <;> apply UInt8.toNat_inj.1 <;> simp only [UInt8.toNat_ofNat'] <;> omega

/-! ### Parsers -/

/-- The failure to read something, whatever its cause. -/
structure Unreadable where
  deriving DecidableEq, Repr

/-- A parser takes its value off the front of the input, or fails with a cause. -/
abbrev Parser (ε α : Type) := StateT Bytes (Except ε) α

namespace Parser

variable {ε α : Type}

/-- The first `count` bytes; `short` is the failure on a shorter input. -/
def take (short : ε) (count : Nat) : Parser ε Bytes := fun input ↦
  let front := input.take count
  if front.length = count then .ok (front, input.drop count) else .error short

def u1 (short : ε) : Parser ε UInt8
  | a :: rest => .ok (a, rest)
  | [] => .error short

def u2 (short : ε) : Parser ε UInt16
  | a :: b :: rest => .ok (word16 a b, rest)
  | _ => .error short

def u4 (short : ε) : Parser ε UInt32
  | a :: b :: c :: d :: rest => .ok (word32 a b c d, rest)
  | _ => .error short

def u8 (short : ε) : Parser ε UInt64 := do
  let high ← u4 short
  let low ← u4 short
  return word64 high low

/-- Runs `item` exactly `count` times. -/
def times (item : Parser ε α) : Nat → Parser ε (List α)
  | 0 => pure []
  | count + 1 => do
    let first ← item
    let others ← times item count
    return first :: others

theorem take_append (short : ε) (front rest : Bytes) :
    take short front.length (front ++ rest) = .ok (front, rest) := by
  simp [take]

theorem u2_bytes16 (short : ε) (word : UInt16) (rest : Bytes) :
    u2 short (bytes16 word ++ rest) = .ok (word, rest) := by
  show Except.ok (word16 _ _, rest) = _
  rw [word16_bytes16]

theorem u4_bytes32 (short : ε) (word : UInt32) (rest : Bytes) :
    u4 short (bytes32 word ++ rest) = .ok (word, rest) := by
  show Except.ok (word32 _ _ _ _, rest) = _
  rw [word32_bytes32]

theorem u8_bytes64 (short : ε) (word : UInt64) (rest : Bytes) :
    u8 short (bytes64 word ++ rest) = .ok (word, rest) := by
  have hhigh := u4_bytes32 short (UInt32.ofNat (word.toNat / 4294967296))
    (bytes32 (UInt32.ofNat word.toNat) ++ rest)
  have hlow := u4_bytes32 short (UInt32.ofNat word.toNat) rest
  rw [bytes64, List.append_assoc]
  change (u4 short (bytes32 _ ++ (bytes32 _ ++ rest)) >>= fun high ↦
    u4 short high.2 >>= fun low ↦ pure (word64 high.1 low.1, low.2)) = _
  rw [hhigh]
  change (u4 short (bytes32 _ ++ rest) >>= fun low ↦ pure (word64 _ low.1, low.2)) = _
  rw [hlow]
  change Except.ok (word64 _ _, rest) = _
  rw [word64_halves]

end Parser

end ClassWeaver
