import ClassWeaver.Archive.Entry

/-!
Writing an archive.

The entries stand in order, none of them compressed, each behind its header. The directory
follows, with a record for each entry, and then the end record, without a comment.
-/

set_option autoImplicit false
set_option relaxedAutoImplicit false

namespace ClassWeaver.Archive

/-- The version of the format that a reader needs. -/
def versionNeeded : Nat :=
  20

/-- The version of the format that was written, and the system whose file attributes follow it. -/
def versionMade : Nat :=
  3 * 256 + 46

/-- The first day that a date can say, the year 1980 being the first. -/
def firstDate : Nat :=
  1 * 32 + 1

/-- The attributes of a plain file that its owner may write and all may read. -/
def plainFile : Nat :=
  0o100644 * 65536

/-- The flags of an entry: a name outside ASCII is in UTF-8. -/
def nameFlags (name : String) : Nat :=
  if name.toList.all (·.toNat < 128) then 0 else 1 <<< Record.utf8Flag

/-- What the header and the record of an entry have in common. -/
def commonFields (name : String) (content : Bytes) : Bytes :=
  LittleEndian.bytes 2 versionNeeded ++ LittleEndian.bytes 2 (nameFlags name) ++
    LittleEndian.bytes 2 0 ++ LittleEndian.bytes 2 0 ++ LittleEndian.bytes 2 firstDate ++
    LittleEndian.bytes 4 (Checksum.ofBytes content).toNat ++
    LittleEndian.bytes 4 content.length ++ LittleEndian.bytes 4 content.length ++
    LittleEndian.bytes 2 (Text.Utf8.encode name).length ++ LittleEndian.bytes 2 0

/-- An entry behind its header. -/
def entryBytes (name : String) (content : Bytes) : Bytes :=
  Record.headerSignature ++ commonFields name content ++ Text.Utf8.encode name ++ content

/-- The record of an entry that stands at `place`. -/
def recordBytes (name : String) (content : Bytes) (place : Nat) : Bytes :=
  Record.signature ++ LittleEndian.bytes 2 versionMade ++ commonFields name content ++
    LittleEndian.bytes 2 0 ++ LittleEndian.bytes 2 0 ++ LittleEndian.bytes 2 0 ++
    LittleEndian.bytes 4 plainFile ++ LittleEndian.bytes 4 place ++ Text.Utf8.encode name

/-- The records of entries, the first of which stands at `place`. -/
def directoryBytes (place : Nat) : List (String × Bytes) → Bytes
  | [] => []
  | (name, content) :: rest =>
    recordBytes name content place ++
      directoryBytes (place + (entryBytes name content).length) rest

/-- The end record behind `count` records, which take `size` bytes from `place` on. -/
def endRecordBytes (count size place : Nat) : Bytes :=
  EndRecord.signature ++ LittleEndian.bytes 2 0 ++ LittleEndian.bytes 2 0 ++
    LittleEndian.bytes 2 count ++ LittleEndian.bytes 2 count ++ LittleEndian.bytes 4 size ++
    LittleEndian.bytes 4 place ++ LittleEndian.bytes 2 0

/-- An archive with the given entries. -/
def print (entries : List (String × Bytes)) : Bytes :=
  let front := entries.flatMap fun (name, content) ↦ entryBytes name content
  let directory := directoryBytes 0 entries
  front ++ directory ++ endRecordBytes entries.length directory.length front.length

end ClassWeaver.Archive
