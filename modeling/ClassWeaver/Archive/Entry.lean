import ClassWeaver.Archive.Checksum
import ClassWeaver.Archive.Deflate
import ClassWeaver.Archive.Directory

/-!
The contents of an archive's entries.

In front of its content, an entry has a header of its own, with a name and extra fields. Of
entries with the same name the last one counts.
-/

set_option autoImplicit false
set_option relaxedAutoImplicit false

namespace ClassWeaver.Archive

open LittleEndian

namespace Record

/-- The signature of the header of an entry. -/
def headerSignature : Bytes :=
  [0x50, 0x4B, 0x03, 0x04]

/-- The rest of the input behind the header of an entry. -/
def header : Parser Unreadable Bytes := do
  expect headerSignature
  skip 22
  let nameLength ← number 2
  let extraLength ← number 2
  return (← get).drop (nameLength + extraLength)

/-- The content that was packed into `bytes`. -/
def unpack (record : Record) (bytes : Bytes) : Except Unreadable Bytes :=
  match record.method with
  | .stored => .ok bytes
  | .deflated => Deflate.decompress bytes
  | _ => .error ⟨⟩

/-- The content of an entry. It is never taken without its checksum being right. -/
def content (archive : Bytes) (record : Record) : Except Unreadable Bytes := do
  if record.encrypted then throw ⟨⟩
  let behind ← readAt record.place header archive
  let bytes ← record.unpack (behind.take record.packedSize)
  if Checksum.ofBytes bytes = record.checksum then return bytes else throw ⟨⟩

end Record

/-- The content of the entry called `name`. -/
def read? (archive : Bytes) (name : String) : Except Unreadable (Option Bytes) := do
  match (← Directory.records archive).reverse.find? (·.name = name) with
  | some record => return some (← record.content archive)
  | none => return none

end ClassWeaver.Archive
