import ClassWeaver.Archive.PrefixCode
import ClassWeaver.LittleEndian

/-!
Data compressed by the deflate method.

Compressed data are blocks, and the last one is marked. A block holds bytes as they are, or
tokens, which are single bytes and copies of what is behind. Zeros are behind the first byte. The
tokens are in two prefix codes, which are fixed or stand in front of the tokens. Whatever follows
the last block does not count.
-/

set_option autoImplicit false
set_option relaxedAutoImplicit false

namespace ClassWeaver.Archive.Deflate

inductive Token where
  | literal (byte : UInt8)
  /-- The `length` bytes that start `distance` bytes before the end; they may run over it. -/
  | copy (length distance : Nat)
  deriving DecidableEq, Repr

/-! ### The meaning of tokens -/

/-- The byte that is `distance` before the end, which is zero before the first byte. -/
def byteBehind (output : Array UInt8) (distance : Nat) : UInt8 :=
  if output.size < distance then 0 else output.getD (output.size - distance) 0

/-- Appends bytes one by one, each a copy of the one `distance` before the end. -/
def copyBack (distance : Nat) : (length : Nat) → Array UInt8 → Array UInt8
  | 0, output => output
  | length + 1, output => copyBack distance length (output.push (byteBehind output distance))

/-- Appends what a token stands for. -/
def Token.appendTo (output : Array UInt8) : Token → Array UInt8
  | literal byte => output.push byte
  | copy length distance => copyBack distance length output

/-! ### Reading tokens -/

/-- The prefix codes of a block. -/
structure Codes where
  /-- The code of literals, of the end of the block and of the classes of lengths. -/
  literals : PrefixCode
  /-- The code of the classes of distances. -/
  distances : PrefixCode

/-- The symbol that ends a block. -/
def endOfBlock : Nat :=
  256

/-- The least length of each class, and how many bits follow to tell it from the others. -/
def lengthClasses : Array (Nat × Nat) :=
  #[(3, 0), (4, 0), (5, 0), (6, 0), (7, 0), (8, 0), (9, 0), (10, 0), (11, 1), (13, 1), (15, 1),
    (17, 1), (19, 2), (23, 2), (27, 2), (31, 2), (35, 3), (43, 3), (51, 3), (59, 3), (67, 4),
    (83, 4), (99, 4), (115, 4), (131, 5), (163, 5), (195, 5), (227, 5), (258, 0)]

/-- The least distance of each class, and how many bits follow to tell it from the others. -/
def distanceClasses : Array (Nat × Nat) :=
  #[(1, 0), (2, 0), (3, 0), (4, 0), (5, 1), (7, 1), (9, 2), (13, 2), (17, 3), (25, 3), (33, 4),
    (49, 4), (65, 5), (97, 5), (129, 6), (193, 6), (257, 7), (385, 7), (513, 8), (769, 8),
    (1025, 9), (1537, 9), (2049, 10), (3073, 10), (4097, 11), (6145, 11), (8193, 12), (12289, 12),
    (16385, 13), (24577, 13)]

/-- The number of a class that the next bits tell. -/
def readClass (classes : Array (Nat × Nat)) (index : Nat) : BitParser Nat :=
  match classes[index]? with
  | some (least, width) => do return least + (← BitReader.number width)
  | none => throw ⟨⟩

/-- The next token, or none at the end of the block. -/
def readToken (codes : Codes) : BitParser (Option Token) := do
  let symbol ← codes.literals.decode
  if symbol < endOfBlock then return some (.literal (UInt8.ofNat symbol))
  else if symbol = endOfBlock then return none
  else
    let length ← readClass lengthClasses (symbol - endOfBlock - 1)
    let distance ← readClass distanceClasses (← codes.distances.decode)
    return some (.copy length distance)

/-- Appends what the tokens up to the end of the block stand for. No block has more tokens than
bits, and `fuel` is a bound on these. -/
def readTokens (codes : Codes) : (fuel : Nat) → Array UInt8 → BitParser (Array UInt8)
  | 0, _ => throw ⟨⟩
  | fuel + 1, output => do
    match ← readToken codes with
    | some token => readTokens codes fuel (token.appendTo output)
    | none => return output

/-! ### Codes -/

def fixedCodes : Codes where
  literals := .ofLengths
    (List.replicate 144 8 ++ List.replicate 112 9 ++ List.replicate 24 7 ++ List.replicate 8 8)
  distances := .ofLengths (List.replicate 32 5)

/-- The order in which the lengths are told for the code that tells the lengths of the others. -/
def lengthOrder : List Nat :=
  [16, 17, 18, 0, 8, 7, 9, 6, 10, 5, 11, 4, 12, 3, 13, 2, 14, 1, 15]

/-- The code that tells the lengths of words in the others. -/
def readLengthCode (count : Nat) : BitParser PrefixCode := do
  let told ← (lengthOrder.take count).mapM fun symbol ↦
    return (symbol, ← BitReader.number 3)
  let code := PrefixCode.ofLengths
    ((List.range lengthOrder.length).map fun symbol ↦ (told.lookup symbol).getD 0)
  if code.isComplete then return code else throw ⟨⟩

/-- The lengths that the next symbol tells. The symbols from 16 on repeat the length before, or
zero. -/
def readRun (code : PrefixCode) (before : Option Nat) : BitParser (List Nat) := do
  let symbol ← code.decode
  if symbol < 16 then return [symbol]
  else if symbol = 16 then
    match before with
    | some length => return List.replicate (3 + (← BitReader.number 2)) length
    | none => throw ⟨⟩
  else if symbol = 17 then return List.replicate (3 + (← BitReader.number 3)) 0
  else return List.replicate (11 + (← BitReader.number 7)) 0

/-- Reads `count` lengths behind those that are `known`, the latest of which comes first. Every
symbol tells at least one, so that `fuel` need not be more than `count`. -/
def readLengths (code : PrefixCode) : (fuel count : Nat) → (known : List Nat) → BitParser (List Nat)
  | _, 0, known => return known.reverse
  | 0, _, _ => throw ⟨⟩
  | fuel + 1, count, known => do
    let run ← readRun code known.head?
    if run.length ≤ count then readLengths code fuel (count - run.length) (run ++ known)
    else throw ⟨⟩

/-- The codes in front of the tokens of a block. -/
def readCodes : BitParser Codes := do
  let literalCount := 257 + (← BitReader.number 5)
  let distanceCount := 1 + (← BitReader.number 5)
  let lengthCount := 4 + (← BitReader.number 4)
  if 286 < literalCount ∨ 30 < distanceCount then throw ⟨⟩
  let code ← readLengthCode lengthCount
  let count := literalCount + distanceCount
  let lengths ← readLengths code count count []
  let codes : Codes :=
    ⟨.ofLengths (lengths.take literalCount), .ofLengths (lengths.drop literalCount)⟩
  if codes.literals.isUsable && codes.distances.isUsable then return codes else throw ⟨⟩

/-! ### Blocks -/

/-- The bytes of a block that holds them as they are, behind their number and its complement. -/
def storedBytes : Parser Unreadable Bytes := do
  let length ← LittleEndian.number 2
  let complement ← LittleEndian.number 2
  if length + complement = 0xFFFF then Parser.take ⟨⟩ length else throw ⟨⟩

/-- Appends what a block of the given kind stands for. -/
def readBlock (kind : Nat) (output : Array UInt8) : BitParser (Array UInt8) := do
  match kind with
  | 0 => return output ++ (← BitReader.aligned storedBytes)
  | 1 => readTokens fixedCodes (← get).size output
  | 2 =>
    let codes ← readCodes
    readTokens codes (← get).size output
  | _ => throw ⟨⟩

/-- Appends what the blocks up to the last one stand for. There are fewer blocks than bits, and
`fuel` is a bound on these. -/
def readBlocks : (fuel : Nat) → Array UInt8 → BitParser (Array UInt8)
  | 0, _ => throw ⟨⟩
  | fuel + 1, output => do
    let last ← BitReader.bit
    let output ← readBlock (← BitReader.number 2) output
    if last then return output else readBlocks fuel output

/-- The data that were compressed. -/
def decompress (bytes : Bytes) : Except Unreadable Bytes := do
  let reader := BitReader.ofBytes bytes
  let (output, _) ← (readBlocks reader.size #[]).run reader
  return output.toList

end ClassWeaver.Archive.Deflate
