import ClassWeaver.Archive.Record

/-!
Finding the directory of an archive.

The end record stands at the end of an archive, in front of a comment, and tells where the
directory is. If there is a locator in front of it, that leads to a wide end record, which counts
instead. An archive may have something else in front: then all places in it are shifted.
-/

set_option autoImplicit false
set_option relaxedAutoImplicit false

namespace ClassWeaver.Archive

open LittleEndian

/-- Runs a parser on what stands at a place. -/
def readAt {α : Type} (place : Nat) (parser : Parser Unreadable α) (archive : Bytes) :
    Except Unreadable α :=
  (·.1) <$> parser.run (archive.drop place)

/-- Where a signature stands first, among `count` places from `place` on, the first of which is
that of `bytes`. -/
def firstPlace (signature : Bytes) (place : Nat) : (count : Nat) → Bytes → Option Nat
  | 0, _ => none
  | count + 1, bytes =>
    if signature.isPrefixOf bytes then some place
    else
      match bytes with
      | [] => none
      | _ :: rest => firstPlace signature (place + 1) count rest

/-! ### The end record -/

structure EndRecord where
  disk : Nat
  /-- The disk on which the directory starts. -/
  directoryDisk : Nat
  countOnDisk : Nat
  count : Nat
  directorySize : Nat
  directoryPlace : Nat
  commentLength : Nat
  deriving DecidableEq, Repr

namespace EndRecord

def signature : Bytes :=
  [0x50, 0x4B, 0x05, 0x06]

/-- The number of bytes of an end record without its comment. -/
def size : Nat :=
  22

/-- The number of places in which an end record may start, because its comment is at most as
long as its length can say. -/
def placeCount : Nat :=
  0x10000

def parser : Parser Unreadable EndRecord := do
  expect signature
  let disk ← number 2
  let directoryDisk ← number 2
  let countOnDisk ← number 2
  let count ← number 2
  let directorySize ← number 4
  let directoryPlace ← number 4
  let commentLength ← number 2
  skip commentLength
  return { disk, directoryDisk, countOnDisk, count, directorySize, directoryPlace, commentLength }

/-- The last place in which an end record may start and its signature stands. -/
def lastPlace (archive : Bytes) : Except Unreadable Nat :=
  let behind := archive.reverse.drop (size - signature.length)
  match firstPlace signature.reverse 0 placeCount behind with
  | some distance => .ok (archive.length - size - distance)
  | none => .error ⟨⟩

/-- Whether a value has outgrown its field. -/
def isOutgrown (record : EndRecord) : Bool :=
  [record.disk, record.directoryDisk, record.countOnDisk, record.count].contains (outgrown 2) ||
    [record.directorySize, record.directoryPlace].contains (outgrown 4)

end EndRecord

/-! ### The wide end record -/

/-- The locator of a wide end record. -/
structure Locator where
  /-- The disk on which the wide end record is. -/
  disk : Nat
  place : Nat
  deriving DecidableEq, Repr

namespace Locator

def signature : Bytes :=
  [0x50, 0x4B, 0x06, 0x07]

/-- The number of bytes of a locator. -/
def size : Nat :=
  20

def parser : Parser Unreadable Locator := do
  expect signature
  let disk ← number 4
  let place ← number 8
  return { disk, place }

/-- The locator in front of an end record whose comment ends the archive. -/
def find? (archive : Bytes) (commentLength : Nat) : Option Locator :=
  let distance := size + EndRecord.size + commentLength
  if archive.length < distance then none
  else (readAt (archive.length - distance) parser archive).toOption

end Locator

structure WideEndRecord where
  disk : Nat
  directoryDisk : Nat
  count : Nat
  directoryPlace : Nat
  deriving DecidableEq, Repr

namespace WideEndRecord

def signature : Bytes :=
  [0x50, 0x4B, 0x06, 0x06]

/-- The least number of bytes from the start of a wide end record to that of the end record. -/
def distance : Nat :=
  60

def parser : Parser Unreadable WideEndRecord := do
  expect signature
  skip 12
  let disk ← number 4
  let directoryDisk ← number 4
  skip 8
  let count ← number 8
  skip 8
  let directoryPlace ← number 8
  return { disk, directoryDisk, count, directoryPlace }

/-- The first place, from `first` on, in which a wide end record may start and its signature
stands. The end record is at `last`. -/
def firstPlace (archive : Bytes) (first last : Nat) : Except Unreadable Nat :=
  if last < distance then .error ⟨⟩
  else
    let count := last - distance + 1 - first
    match Archive.firstPlace signature first count (archive.drop first) with
    | some place => .ok place
    | none => .error ⟨⟩

end WideEndRecord

/-! ### The directory -/

/-- Where the directory of an archive is. -/
structure Directory where
  start : Nat
  /-- The number of records. -/
  count : Nat
  /-- How much further all places are than the archive says. -/
  shift : Nat
  deriving DecidableEq, Repr

namespace Directory

/-- Places are below this number. -/
def placeLimit : Nat :=
  0x8000000000000000

/-- The directory in front of an end record. -/
def ofEndRecord (record : EndRecord) (place : Nat) : Except Unreadable Directory :=
  let front := record.directorySize + record.directoryPlace
  if place < front then .error ⟨⟩
  else
    .ok { start := place - record.directorySize, count := record.countOnDisk,
          shift := place - front }

/-- The directory that a wide end record tells. -/
def ofWideEndRecord (record : WideEndRecord) (shift : Nat) : Except Unreadable Directory :=
  let start := record.directoryPlace + shift
  if record.disk ≠ record.directoryDisk ∨ placeLimit ≤ start then .error ⟨⟩
  else .ok { start, count := record.count, shift }

def find (archive : Bytes) : Except Unreadable Directory := do
  let place ← EndRecord.lastPlace archive
  let record ← readAt place EndRecord.parser archive
  let trusted := !record.isOutgrown
  if trusted && record.disk ≠ record.directoryDisk then throw ⟨⟩
  match Locator.find? archive record.commentLength with
  | none => ofEndRecord record place
  | some locator =>
    if trusted && record.disk ≠ locator.disk then throw ⟨⟩
    let widePlace ← WideEndRecord.firstPlace archive locator.place place
    let wide ← readAt widePlace WideEndRecord.parser archive
    ofWideEndRecord wide (widePlace - locator.place)

/-- The records of an archive, in order. -/
def records (archive : Bytes) : Except Unreadable (List Record) := do
  let directory ← find archive
  readAt directory.start (Parser.times (Record.parser directory.shift) directory.count) archive

end Directory

end ClassWeaver.Archive
