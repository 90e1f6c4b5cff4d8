import ClassWeaver.LittleEndian
import ClassWeaver.Text.CodePage437
import ClassWeaver.Text.Utf8

/-!
What the directory of an archive says about its entries.

A record has fields of fixed width, then a name, extra fields and a comment. A size or a place
that its field cannot hold is in an extra field instead.
-/

set_option autoImplicit false
set_option relaxedAutoImplicit false

namespace ClassWeaver.Archive

open LittleEndian

/-- The number in a field of `width` bytes that says that the value is elsewhere, because the
field cannot hold it. -/
def outgrown (width : Nat) : Nat :=
  Nat.pow 256 width - 1

/-- Goes past bytes that have to be there. -/
def expect (signature : Bytes) : Parser Unreadable Unit := do
  if (← Parser.take ⟨⟩ signature.length) ≠ signature then throw ⟨⟩

def skip (count : Nat) : Parser Unreadable Unit := do
  let _ ← Parser.take ⟨⟩ count

/-- How the content of an entry is packed. -/
inductive Method where
  | stored
  | deflated
  /-- Encrypted in a way that an extra field has to tell. -/
  | untold
  /-- Encrypted in a way that an extra field tells. -/
  | sealed
  | other (code : Nat)
  deriving DecidableEq, Repr

def Method.ofCode (code : Nat) : Method :=
  if code = 0 then stored
  else if code = 8 then deflated
  else if code = 99 then untold
  else other code

structure Record where
  name : String
  encrypted : Bool
  method : Method
  checksum : UInt32
  size : Nat
  packedSize : Nat
  /-- Where the header of the entry is. -/
  place : Nat
  deriving DecidableEq, Repr

namespace Record

def signature : Bytes :=
  [0x50, 0x4B, 0x01, 0x02]

/-- The bit of the flags that marks an encrypted entry. -/
def encryptedFlag : Nat :=
  0

/-- The bit of the flags that marks a name in UTF-8. -/
def utf8Flag : Nat :=
  11

/-- The text of a name, which is in code page 437 unless the flags say otherwise. -/
def nameText (flags : Nat) (name : Bytes) : String :=
  if flags.testBit utf8Flag then Text.Utf8.decodeLossy name else Text.CodePage437.decode name

/-! ### Extra fields -/

/-- The value of a field that may have been outgrown: then it is the next wide number. Without
enough bytes for that it stays as it is, and nothing is left. -/
def widen (value : Nat) (bytes : Bytes) : Nat × Bytes :=
  if value = outgrown 4 then
    match number 8 bytes with
    | .ok (wide, rest) => (wide, rest)
    | .error _ => (value, [])
  else (value, bytes)

/-- The record with the wide numbers that stand in front of `bytes`, and the rest of these. -/
def widened (record : Record) (bytes : Bytes) : Record × Bytes :=
  let (size, bytes) := widen record.size bytes
  let (packedSize, bytes) := widen record.packedSize bytes
  let (place, bytes) := widen record.place bytes
  ({ record with size, packedSize, place }, bytes)

/-- The number of bytes that tell how an entry is encrypted. -/
def sealingSize : Nat :=
  7

/-- Whether bytes tell how an entry is encrypted: there are two versions of one vendor's way, each
in three strengths. -/
def isSealing (bytes : Bytes) : Bool :=
  match bytes with
  | [a, b, c, d, strength, _, _] =>
    let version := value [a, b]
    let vendor := value [c, d]
    vendor == 0x4541 && (version == 1 || version == 2) && 1 ≤ strength && strength ≤ 3
  | _ => false

/-- The kind of the extra field that has wide numbers. -/
def wideKind : Nat :=
  0x0001

/-- The kind of the extra field of a sealed entry. -/
def sealedKind : Nat :=
  0x9901

theorem length_widen_le (value : Nat) (bytes : Bytes) :
    (widen value bytes).2.length ≤ bytes.length := by
  unfold widen
  split
  · cases hnumber : number 8 bytes with
    | error => simp
    | ok read =>
      change (Parser.take (⟨⟩ : Unreadable) 8 bytes).bind
        (fun taken ↦ .ok (LittleEndian.value taken.1, taken.2)) = _ at hnumber
      simp only [Except.bind, Parser.take] at hnumber
      split at hnumber
      · cases hnumber
      · rename_i taken htaken
        split at htaken <;> cases htaken
        cases hnumber
        simp
  · exact Nat.le_refl _

theorem length_widened_le (record : Record) (bytes : Bytes) :
    (record.widened bytes).2.length ≤ bytes.length :=
  Nat.le_trans (length_widen_le ..) (Nat.le_trans (length_widen_le ..) (length_widen_le ..))

/-- The record after its extra fields. Each has a kind and a length in front; one that is cut
short ends them. Behind the field of a sealed entry, as many bytes as it has do not count. -/
def withExtras (record : Record) : Bytes → Except Unreadable Record
  | a :: b :: c :: d :: rest =>
    let kind := value [a, b]
    let length := value [c, d]
    if kind = wideKind then
      let wide := record.widened rest
      let used := rest.length - wide.2.length
      withExtras wide.1 (wide.2.drop (length - used))
    else if kind = sealedKind then
      if length ≠ sealingSize then .error ⟨⟩
      else if rest.length < sealingSize then .ok record
      else if isSealing (rest.take sealingSize) then
        withExtras { record with method := .sealed } (rest.drop (2 * sealingSize))
      else .error ⟨⟩
    else withExtras record (rest.drop length)
  | _ => .ok record
  termination_by bytes => bytes.length
  decreasing_by
    · have hwide := length_widened_le record rest
      simp only [List.length_drop, List.length_cons]
      omega
    · simp only [List.length_drop, List.length_cons]
      omega
    · simp only [List.length_drop, List.length_cons]
      omega

/-! ### Records -/

/-- The first number that no place in an archive has. -/
def placeBound : Nat :=
  0x10000000000000000

/-- Reads a record. All places in the archive are `shift` more than those that it says. -/
def parser (shift : Nat) : Parser Unreadable Record := do
  expect signature
  skip 4
  let flags ← number 2
  let method := Method.ofCode (← number 2)
  skip 4
  let checksum ← number 4
  let packedSize ← number 4
  let size ← number 4
  let nameLength ← number 2
  let extraLength ← number 2
  let commentLength ← number 2
  skip 8
  let place ← number 4
  let name := nameText flags (← Parser.take ⟨⟩ nameLength)
  let extras ← Parser.take ⟨⟩ extraLength
  skip commentLength
  let encrypted := flags.testBit encryptedFlag
  let plain : Record :=
    { name, encrypted, method, checksum := UInt32.ofNat checksum, size, packedSize, place }
  let record ← plain.withExtras extras
  if record.method = .untold then throw ⟨⟩
  let place := record.place + shift
  if placeBound ≤ place then throw ⟨⟩
  return { record with place }

end Record

end ClassWeaver.Archive
